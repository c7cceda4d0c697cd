import AuthKademlia.Lib.Codec
import AuthKademlia.PendingCalls

/-!
# Frames as bytes

`bincode` turns frames into bytes and back.  The development knows of it only the two calls,
`WireLib`, and where it matters that what one node writes another reads, `WireLib.ReadBy` is
a hypothesis.

The samples need a library that does it.  They use the format of `bincode::serialize` with
its default options: the fields of a struct one after the other, integers least significant
byte first, the length of a vector or a text in eight bytes, an option or a truth value after
or as one byte, and the number of an enum's variant in four.  `bincode::deserialize` reads the
same format and ignores what follows the value.

## Main definitions

* `WireLib`, `WireLib.ReadBy` — the calls, and what is assumed of them.
* `RpcKind`, `RpcMessage.codec`, `Frame.codec`, `Sample.bincode` — the format.
-/

namespace AuthKademlia

open Lib

/-- The calls into `bincode`.  Both may fail, and the errors are only logged. -/
structure WireLib where
  /-- `bincode::serialize`. -/
  serialize : Frame → Option Bytes
  /-- `bincode::deserialize`. -/
  deserialize : Bytes → Option Frame

/-- What the one library writes the other reads, up to the length at which frames are refused. -/
def WireLib.ReadBy (wire wire' : WireLib) : Prop :=
  ∀ frame payload, wire.serialize frame = some payload → payload.length ≤ maxMessageSize →
    wire'.deserialize payload = some frame

/-! ## Formats -/

/-- `[u8; ID_LEN]`, without a length. -/
def NodeId.codec : Codec NodeId :=
  (Codec.bytes idLen).refine (fun bs => if h : bs.length = idLen then some ⟨bs, h⟩ else none)
    NodeId.bytes

theorem NodeId.codec_fits (id : NodeId) : NodeId.codec.fits id :=
  ⟨id.length_eq, dif_pos id.length_eq⟩

@[simp] theorem NodeId.length_write (id : NodeId) : (NodeId.codec.write id).length = idLen :=
  id.length_eq

def WireNode.codec : Codec WireNode :=
  (NodeId.codec.prod ((Codec.option (Codec.text 8)).prod (Codec.option Codec.u16))).refine
    (fun (id, ip, port) => some ⟨id, ip, port⟩) fun n => (n.id, n.ip, n.port)

/-- The variants of `RpcMessage`. -/
inductive RpcKind where
  | ping
  | pong
  | store
  | storeResult
  | update
  | updateResult
  | updateStatusList
  | updateStatusListResult
  | delete
  | deleteResult
  | findNode
  | findNodeResult
  | findValue
  | findValueNodes
  | findValueHit
  | leave
  deriving DecidableEq

namespace RpcKind

/-- The order of declaration, which numbers the variants. -/
def order : List RpcKind :=
  [ping, pong, store, storeResult, update, updateResult, updateStatusList,
    updateStatusListResult, delete, deleteResult, findNode, findNodeResult, findValue,
    findValueNodes, findValueHit, leave]

def codec : Codec RpcKind :=
  Codec.u32.refine (fun n => order[n.toNat]?) fun kind => UInt32.ofNat (order.idxOf kind)

theorem codec_fits (kind : RpcKind) : codec.fits kind :=
  ⟨Codec.fits_u32 _, by cases kind <;> decide⟩

end RpcKind

namespace RpcMessage

/-- The fields of a variant. -/
def Fields : RpcKind → Type
  | .ping | .pong | .leave => NodeId
  | .store | .updateStatusList => NodeId × NodeId × Bytes
  | .update | .delete => NodeId × NodeId × Bytes × Bytes
  | .storeResult | .updateResult | .updateStatusListResult | .deleteResult => Bool
  | .findNode | .findValue => NodeId × NodeId
  | .findNodeResult | .findValueNodes => List WireNode
  | .findValueHit => Bytes

def toFields : RpcMessage → Σ kind, Fields kind
  | ping senderId => ⟨.ping, senderId⟩
  | pong senderId => ⟨.pong, senderId⟩
  | store senderId key value => ⟨.store, senderId, key, value⟩
  | storeResult ok => ⟨.storeResult, ok⟩
  | update senderId key value authSignature => ⟨.update, senderId, key, value, authSignature⟩
  | updateResult ok => ⟨.updateResult, ok⟩
  | updateStatusList senderId key value => ⟨.updateStatusList, senderId, key, value⟩
  | updateStatusListResult ok => ⟨.updateStatusListResult, ok⟩
  | delete senderId key authSignature deleteMsg =>
      ⟨.delete, senderId, key, authSignature, deleteMsg⟩
  | deleteResult ok => ⟨.deleteResult, ok⟩
  | findNode senderId key => ⟨.findNode, senderId, key⟩
  | findNodeResult nodes => ⟨.findNodeResult, nodes⟩
  | findValue senderId key => ⟨.findValue, senderId, key⟩
  | findValueNodes nodes => ⟨.findValueNodes, nodes⟩
  | findValueHit value => ⟨.findValueHit, value⟩
  | leave senderId => ⟨.leave, senderId⟩

def ofFields : (Σ kind, Fields kind) → RpcMessage
  | ⟨.ping, senderId⟩ => ping senderId
  | ⟨.pong, senderId⟩ => pong senderId
  | ⟨.store, senderId, key, value⟩ => store senderId key value
  | ⟨.storeResult, ok⟩ => storeResult ok
  | ⟨.update, senderId, key, value, authSignature⟩ => update senderId key value authSignature
  | ⟨.updateResult, ok⟩ => updateResult ok
  | ⟨.updateStatusList, senderId, key, value⟩ => updateStatusList senderId key value
  | ⟨.updateStatusListResult, ok⟩ => updateStatusListResult ok
  | ⟨.delete, senderId, key, authSignature, deleteMsg⟩ =>
      delete senderId key authSignature deleteMsg
  | ⟨.deleteResult, ok⟩ => deleteResult ok
  | ⟨.findNode, senderId, key⟩ => findNode senderId key
  | ⟨.findNodeResult, nodes⟩ => findNodeResult nodes
  | ⟨.findValue, senderId, key⟩ => findValue senderId key
  | ⟨.findValueNodes, nodes⟩ => findValueNodes nodes
  | ⟨.findValueHit, value⟩ => findValueHit value
  | ⟨.leave, senderId⟩ => leave senderId

theorem ofFields_toFields (message : RpcMessage) : ofFields message.toFields = message := by
  cases message <;> rfl

/-- The fields in the order of declaration. -/
def fieldsCodec : ∀ kind, Codec (Fields kind)
  | .ping | .pong | .leave => NodeId.codec
  | .store | .updateStatusList => NodeId.codec.prod (NodeId.codec.prod (Codec.blob 8))
  | .update | .delete =>
      NodeId.codec.prod (NodeId.codec.prod ((Codec.blob 8).prod (Codec.blob 8)))
  | .storeResult | .updateResult | .updateStatusListResult | .deleteResult => Codec.bool
  | .findNode | .findValue => NodeId.codec.prod NodeId.codec
  | .findNodeResult | .findValueNodes => Codec.list 8 WireNode.codec
  | .findValueHit => Codec.blob 8

def codec : Codec RpcMessage :=
  (RpcKind.codec.sigma fieldsCodec).refine (fun fields => some (ofFields fields)) toFields

end RpcMessage

def Frame.codec : Codec Frame :=
  (Codec.u32.prod (Codec.bool.prod RpcMessage.codec)).refine
    (fun (msgId, isRequest, message) => some ⟨msgId, isRequest, message⟩)
    fun frame => (frame.msgId, frame.isRequest, frame.message)

theorem Frame.length_write (frame : Frame) :
    (Frame.codec.write frame).length = 5 + (RpcMessage.codec.write frame.message).length := by
  simp only [Frame.codec, Codec.refine, Codec.prod, List.length_append,
    Codec.length_write_u32, Codec.length_write_bool]
  omega

/-! ## What fits -/

section Fits

open Codec

variable {n : ℕ}

theorem WireNode.codec_fitsBelow (hn : n ≤ 256 ^ 8) : FitsBelow n WireNode.codec :=
  (FitsBelow.prod (.of_forall NodeId.codec_fits)
    (FitsBelow.prod (FitsBelow.option (FitsBelow.text hn))
      (FitsBelow.option (.of_forall fits_u16)))).refine fun _ => rfl

theorem WireNode.length_write_pos (node : WireNode) : 0 < (WireNode.codec.write node).length := by
  simp only [WireNode.codec, Codec.refine, Codec.prod, List.length_append, NodeId.length_write,
    idLen]
  omega

theorem RpcMessage.codec_fitsBelow (hn : n ≤ 256 ^ 8) : FitsBelow n RpcMessage.codec := by
  have hid : FitsBelow n NodeId.codec := .of_forall NodeId.codec_fits
  have hblob : FitsBelow n (blob 8) := .blob hn
  have hbool : FitsBelow n bool := .of_forall fits_bool
  have hnodes : FitsBelow n (list 8 WireNode.codec) :=
    .list hn (WireNode.codec_fitsBelow hn) WireNode.length_write_pos
  refine FitsBelow.refine (.sigma (.of_forall RpcKind.codec_fits) ?_)
    fun message => congrArg some (RpcMessage.ofFields_toFields message)
  intro kind
  cases kind with
  | ping | pong | leave => exact hid
  | store | updateStatusList => exact hid.prod (hid.prod hblob)
  | update | delete => exact hid.prod (hid.prod (hblob.prod hblob))
  | storeResult | updateResult | updateStatusListResult | deleteResult => exact hbool
  | findNode | findValue => exact hid.prod hid
  | findNodeResult | findValueNodes => exact hnodes
  | findValueHit => exact hblob

theorem Frame.codec_fitsBelow (hn : n ≤ 256 ^ 8) : FitsBelow n Frame.codec :=
  (FitsBelow.prod (.of_forall fits_u32)
    (FitsBelow.prod (.of_forall fits_bool) (RpcMessage.codec_fitsBelow hn))).refine fun _ => rfl

end Fits

/-! ## The library of the samples -/

namespace Sample

def bincode : WireLib where
  serialize frame := some (Frame.codec.write frame)
  deserialize payload := (Frame.codec.read payload).map Prod.fst

theorem bincode_readBy : bincode.ReadBy bincode := by
  rintro frame payload ⟨⟩ hlen
  have hfits : Frame.codec.fits frame :=
    Frame.codec_fitsBelow (n := maxMessageSize + 1) (by decide) frame (Nat.lt_succ_of_le hlen)
  have hread := Frame.codec.read_write hfits []
  rw [List.append_nil] at hread
  simp only [bincode, hread, Option.map_some]

end Sample

end AuthKademlia
