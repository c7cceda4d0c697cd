import AuthKademlia.Lib.Decimal
import AuthKademlia.Protocol

/-!
# Dialling a recorded peer

A datagram comes from a socket address.  The contact recorded for it keeps the printed IP
address and the port, and a later call prints both as `ip:port` and parses that as a socket
address.  For IPv4 this gives the address back.  The textual form of an IPv6 socket address
has the IP address in brackets, which the printed contact lacks, so the parse fails and the
call ends without a datagram: a peer that would answer is treated as one that does not.

The textual forms are those of `std`.  What `std` accepts between the brackets of an IPv6
socket address is the parameter `readIpv6`: no text a call parses gets that far.

## Main definitions

* `Ipv4Addr`, `Ipv6Addr`, `Endpoint` — `std`'s addresses; an `Endpoint` is its `SocketAddr`.
* `Endpoint.printed` — what a handler keeps of the address a datagram came from.
* `readSocketAddr`, `Node.dial` — the parse, and the address a call to a contact goes to.
* `dial_source_iff` — a recorded peer is dialled at its own address exactly for IPv4.
-/

namespace AuthKademlia

open Lib

/-! ## Addresses and their textual forms -/

structure Ipv4Addr where
  a : UInt8
  b : UInt8
  c : UInt8
  d : UInt8
  deriving DecidableEq

structure Ipv6Addr where
  segments : List UInt16
  length_eq : segments.length = 8
  deriving DecidableEq

inductive IpAddr where
  | v4 (ip : Ipv4Addr)
  | v6 (ip : Ipv6Addr)
  deriving DecidableEq

/-- The address of a socket. -/
inductive Endpoint where
  | v4 (ip : Ipv4Addr) (port : UInt16)
  | v6 (ip : Ipv6Addr) (port : UInt16) (flowinfo scopeId : UInt32)
  deriving DecidableEq

namespace Ipv4Addr

def display (ip : Ipv4Addr) : List Char :=
  Nat.toDigits 10 ip.a.toNat ++ '.' :: (Nat.toDigits 10 ip.b.toNat ++ '.' ::
    (Nat.toDigits 10 ip.c.toNat ++ '.' :: Nat.toDigits 10 ip.d.toNat))

end Ipv4Addr

namespace Ipv6Addr

/-- A run of zero segments. -/
structure Span where
  start : ℕ
  len : ℕ

/-- The first of the longest runs of zero segments; `i` counts the segments passed and
`current` is the run that ends there. -/
def zeroes (i : ℕ) (longest current : Span) : List UInt16 → Span
  | [] => longest
  | segment :: segments =>
      if segment = 0 then
        let current : Span :=
          ⟨if current.len = 0 then i else current.start, current.len + 1⟩
        zeroes (i + 1) (if longest.len < current.len then current else longest) current segments
      else zeroes (i + 1) longest ⟨0, 0⟩ segments

/-- Segments in hexadecimal, separated by colons. -/
def fmtSubslice : List UInt16 → List Char
  | [] => []
  | first :: tail =>
      Nat.toDigits 16 first.toNat ++
        tail.flatMap fun segment => ':' :: Nat.toDigits 16 segment.toNat

/-- The IPv4 address in `::ffff:a.b.c.d`. -/
def toIpv4Mapped (ip : Ipv6Addr) : Option Ipv4Addr :=
  match ip.segments with
  | [0, 0, 0, 0, 0, 0xffff, ab, cd] =>
      some ⟨(ab >>> 8).toUInt8, ab.toUInt8, (cd >>> 8).toUInt8, cd.toUInt8⟩
  | _ => none

def display (ip : Ipv6Addr) : List Char :=
  match ip.toIpv4Mapped with
  | some ipv4 => "::ffff:".toList ++ ipv4.display
  | none =>
      let zeroes := zeroes 0 ⟨0, 0⟩ ⟨0, 0⟩ ip.segments
      if 1 < zeroes.len then
        fmtSubslice (ip.segments.take zeroes.start) ++ "::".toList ++
          fmtSubslice (ip.segments.drop (zeroes.start + zeroes.len))
      else fmtSubslice ip.segments

end Ipv6Addr

def IpAddr.toText : IpAddr → String
  | .v4 ip => String.ofList ip.display
  | .v6 ip => String.ofList ip.display

namespace Endpoint

def ip : Endpoint → IpAddr
  | v4 ip _ => .v4 ip
  | v6 ip _ _ _ => .v6 ip

def port : Endpoint → UInt16
  | v4 _ port => port
  | v6 _ port _ _ => port

def isIpv4 : Endpoint → Bool
  | v4 _ _ => true
  | v6 _ _ _ _ => false

/-- `(peer.ip().to_string(), peer.port())`. -/
def printed (peer : Endpoint) : SocketAddr := ⟨peer.ip.toText, peer.port⟩

end Endpoint

/-! ## Parsing a socket address -/

/-- A leading zero is refused here, as it may stand for an octal number. -/
def readOctet (cs : List Char) : Option (ℕ × List Char) := readNumber (some 3) false 256 cs

def readIpv4Addr (cs : List Char) : Option (Ipv4Addr × List Char) := do
  let (a, cs) ← readOctet cs
  let cs ← readGivenChar '.' cs
  let (b, cs) ← readOctet cs
  let cs ← readGivenChar '.' cs
  let (c, cs) ← readOctet cs
  let cs ← readGivenChar '.' cs
  let (d, cs) ← readOctet cs
  some (⟨.ofNat a, .ofNat b, .ofNat c, .ofNat d⟩, cs)

def readPort (cs : List Char) : Option (UInt16 × List Char) := do
  let cs ← readGivenChar ':' cs
  let (port, cs) ← readNumber none true (2 ^ 16) cs
  some (.ofNat port, cs)

def readSocketAddrV4 (cs : List Char) : Option (Endpoint × List Char) := do
  let (ip, cs) ← readIpv4Addr cs
  let (port, cs) ← readPort cs
  some (.v4 ip port, cs)

section Parsing

variable (readIpv6 : List Char → Option ((Ipv6Addr × UInt32) × List Char))

/-- `readIpv6` reads the IP address and its scope id. -/
def readSocketAddrV6 (cs : List Char) : Option (Endpoint × List Char) := do
  let cs ← readGivenChar '[' cs
  let ((ip, scopeId), cs) ← readIpv6 cs
  let cs ← readGivenChar ']' cs
  let (port, cs) ← readPort cs
  some (.v6 ip port 0 scopeId, cs)

def readSocketAddr (cs : List Char) : Option (Endpoint × List Char) :=
  (readSocketAddrV4 cs).or (readSocketAddrV6 readIpv6 cs)

/-- `parse::<SocketAddr>()`: the whole text has to be read. -/
def parseSocketAddr (text : String) : Option Endpoint :=
  match readSocketAddr readIpv6 text.toList with
  | some (endpoint, []) => some endpoint
  | _ => none

/-- `format!("{}:{}", addr.0, addr.1).parse()`. -/
def sockAddr (addr : String × UInt16) : Option Endpoint :=
  parseSocketAddr readIpv6 (addr.1 ++ ":" ++ toString addr.2.toNat)

/-- The address a call to a node is sent to. -/
def Node.dial (node : Node) : Option Endpoint := node.address.bind (sockAddr readIpv6)

/-- The outcome of a call to a node, given what a call to each address brings back. -/
def Node.callOutcome (call : Endpoint → Option RpcMessage) (node : Node) : Protocol.CallResult :=
  match node.dial readIpv6 with
  | none => .badAddress
  | some addr =>
      match call addr with
      | none => .noResponse
      | some msg => .response msg

end Parsing

/-! ## IPv4 -/

theorem readOctet_append (octet : UInt8) {rest : List Char}
    (hrest : rest.takeWhile Char.isDigit = []) :
    readOctet (Nat.toDigits 10 octet.toNat ++ rest) = some (octet.toNat, rest) := by
  have hlt : octet.toNat < 256 := octet.toNat_lt
  refine readNumber_toDigits_append hlt ?_ hrest
  intro k hk
  cases hk
  exact ⟨by omega, by omega⟩

theorem readIpv4Addr_display (ip : Ipv4Addr) {rest : List Char}
    (hrest : rest.takeWhile Char.isDigit = []) :
    readIpv4Addr (ip.display ++ rest) = some (ip, rest) := by
  have hdot : ∀ cs : List Char, ('.' :: cs).takeWhile Char.isDigit = [] := fun _ => rfl
  simp [readIpv4Addr, Ipv4Addr.display, readOctet_append, hdot, hrest]

theorem readPort_toDigits (port : UInt16) :
    readPort (':' :: Nat.toDigits 10 port.toNat) = some (port, []) := by
  have hread := @readNumber_toDigits_append none true (2 ^ 16) port.toNat [] port.toNat_lt
    (by simp) rfl
  rw [List.append_nil] at hread
  simp [readPort, hread]

/-! ## IPv6 -/

theorem mem_toDigits_sixteen {n : ℕ} {c : Char} (h : c ∈ Nat.toDigits 16 n) :
    c ≠ '.' ∧ c ≠ '[' := by
  induction n using Nat.strong_induction_on with
  | _ n ih =>
      rw [Nat.toDigits_eq_if (by omega)] at h
      have hdigit : ∀ d < 16, d.digitChar ≠ '.' ∧ d.digitChar ≠ '[' := by decide
      split at h
      case isTrue hlt =>
        obtain rfl : c = n.digitChar := by simpa using h
        exact hdigit n hlt
      case isFalse hge =>
        rcases List.mem_append.1 h with hmem | hmem
        · exact ih (n / 16) (by omega) hmem
        · obtain rfl : c = (n % 16).digitChar := by simpa using hmem
          exact hdigit (n % 16) (Nat.mod_lt n (by omega))

/-- A text that has a colon before any dot or bracket. -/
def ColonFirst (cs : List Char) : Prop :=
  ∃ front rest : List Char, cs = front ++ ':' :: rest ∧ ∀ c ∈ front, c ≠ '.' ∧ c ≠ '['

theorem ColonFirst.append {cs : List Char} (h : ColonFirst cs) (more : List Char) :
    ColonFirst (cs ++ more) := by
  obtain ⟨front, rest, rfl, hfront⟩ := h
  exact ⟨front, rest ++ more, by simp, hfront⟩

theorem colonFirst_fmtSubslice {segments : List UInt16} (h : 2 ≤ segments.length) :
    ColonFirst (Ipv6Addr.fmtSubslice segments) := by
  match segments, h with
  | first :: second :: tail, _ =>
      exact ⟨Nat.toDigits 16 first.toNat, _, rfl, fun c hc => mem_toDigits_sixteen hc⟩

theorem colonFirst_fmtSubslice_colon (segments : List UInt16) (rest : List Char) :
    ColonFirst (Ipv6Addr.fmtSubslice segments ++ ':' :: rest) := by
  match segments with
  | [] => exact ⟨[], rest, rfl, by simp⟩
  | [segment] =>
      refine ⟨Nat.toDigits 16 segment.toNat, rest, ?_, fun c hc => mem_toDigits_sixteen hc⟩
      simp [Ipv6Addr.fmtSubslice]
  | first :: second :: tail => exact (colonFirst_fmtSubslice (by simp)).append _

theorem Ipv6Addr.colonFirst_display (ip : Ipv6Addr) : ColonFirst ip.display := by
  have hlen : 2 ≤ ip.segments.length := by simp [ip.length_eq]
  simp only [Ipv6Addr.display]
  cases ip.toIpv4Mapped with
  | some ipv4 => exact ⟨[], _, rfl, by simp⟩
  | none =>
      simp only
      split
      · rw [List.append_assoc]
        exact colonFirst_fmtSubslice_colon _ _
      · exact colonFirst_fmtSubslice hlen

/-- Behind the leading digits of such a text there is no dot. -/
theorem ColonFirst.readGivenChar_dot {cs : List Char} (h : ColonFirst cs) :
    readGivenChar '.' (cs.dropWhile Char.isDigit) = none := by
  obtain ⟨front, rest, rfl, hfront⟩ := h
  induction front with
  | nil => rfl
  | cons c front ih =>
      rw [List.cons_append, List.dropWhile_cons]
      split
      · exact ih fun d hd => hfront d (by simp [hd])
      · simp [readGivenChar, (hfront c (by simp)).1]

theorem ColonFirst.readSocketAddrV4 {cs : List Char} (h : ColonFirst cs) :
    readSocketAddrV4 cs = none := by
  have hip : readIpv4Addr cs = none := by
    simp only [readIpv4Addr]
    cases hread : readOctet cs with
    | none => rfl
    | some read =>
        obtain ⟨a, rest⟩ := read
        have hdot := h.readGivenChar_dot
        rw [← rest_of_readNumber hread] at hdot
        simp [hdot]
  simp [AuthKademlia.readSocketAddrV4, hip]

theorem ColonFirst.readGivenChar_bracket {cs : List Char} (h : ColonFirst cs) :
    readGivenChar '[' cs = none := by
  obtain ⟨front, rest, rfl, hfront⟩ := h
  cases front with
  | nil => rfl
  | cons c front => simp [readGivenChar, (hfront c (by simp)).2]

/-! ## Dialling -/

section Dialling

variable (readIpv6 : List Char → Option ((Ipv6Addr × UInt32) × List Char))

theorem ColonFirst.readSocketAddr {cs : List Char} (h : ColonFirst cs) :
    readSocketAddr readIpv6 cs = none := by
  simp [AuthKademlia.readSocketAddr, readSocketAddrV6, h.readSocketAddrV4, h.readGivenChar_bracket]

theorem dial_source (senderId : NodeId) (p : Endpoint) :
    (Protocol.source senderId p.printed).dial readIpv6 =
      sockAddr readIpv6 (p.ip.toText, p.port) := rfl

theorem dial_source_v4 (senderId : NodeId) (ip : Ipv4Addr) (port : UInt16) :
    (Protocol.source senderId (Endpoint.v4 ip port).printed).dial readIpv6 =
      some (.v4 ip port) := by
  have htext : ((IpAddr.v4 ip).toText ++ ":" ++ toString port.toNat).toList =
      ip.display ++ ':' :: Nat.toDigits 10 port.toNat := by
    simp [IpAddr.toText]
  have hread : readSocketAddrV4 (ip.display ++ ':' :: Nat.toDigits 10 port.toNat) =
      some (.v4 ip port, []) := by
    simp [readSocketAddrV4, readIpv4Addr_display ip (rfl : (':' :: _).takeWhile Char.isDigit = []),
      readPort_toDigits]
  simp only [dial_source, sockAddr, parseSocketAddr, Endpoint.ip, Endpoint.port, htext,
    readSocketAddr, hread, Option.some_or]

theorem dial_source_v6 (senderId : NodeId) (ip : Ipv6Addr) (port : UInt16)
    (flowinfo scopeId : UInt32) :
    (Protocol.source senderId (Endpoint.v6 ip port flowinfo scopeId).printed).dial readIpv6 =
      none := by
  have htext : ((IpAddr.v6 ip).toText ++ ":" ++ toString port.toNat).toList =
      ip.display ++ ':' :: Nat.toDigits 10 port.toNat := by
    simp [IpAddr.toText]
  have hcolon := ip.colonFirst_display.append (':' :: Nat.toDigits 10 port.toNat)
  have hread := hcolon.readSocketAddr readIpv6
  simp only [dial_source, sockAddr, parseSocketAddr, Endpoint.ip, Endpoint.port, htext, hread]

/-- **Only IPv4 peers can be dialled back.**  A recorded peer is called at the address it
wrote from, and what it answers is received, exactly if that address is an IPv4 one. -/
theorem dial_source_iff (senderId : NodeId) (p : Endpoint) :
    ((Protocol.source senderId p.printed).dial readIpv6 = some p ∧
      ∀ (call : Endpoint → Option RpcMessage) (msg : RpcMessage), call p = some msg →
        (Protocol.source senderId p.printed).callOutcome readIpv6 call = .response msg) ↔
      p.isIpv4 = true := by
  cases p with
  | v4 ip port =>
      have hdial := dial_source_v4 readIpv6 senderId ip port
      simp only [Endpoint.isIpv4, iff_true]
      refine ⟨hdial, fun call msg hmsg => ?_⟩
      simp only [Node.callOutcome, hdial, hmsg]
  | v6 ip port flowinfo scopeId =>
      simp [Endpoint.isIpv4, dial_source_v6]

/-- A liveness ping to an IPv6 peer evicts it, whatever the peer would answer. -/
theorem callPingNode_v6 (senderId : NodeId) (ip : Ipv6Addr) (port : UInt16)
    (flowinfo scopeId : UInt32) (call : Endpoint → Option RpcMessage) (s : NodeState) :
    let node := Protocol.source senderId (Endpoint.v6 ip port flowinfo scopeId).printed
    Protocol.callPingNode node (node.callOutcome readIpv6 call) s =
      { s with router := s.router.removeContact node } := by
  simp only [Node.callOutcome, dial_source_v6]
  rfl

end Dialling

/-- `[::1]:5678`. -/
def loopbackPeer : Endpoint := .v6 ⟨[0, 0, 0, 0, 0, 0, 0, 1], rfl⟩ 5678 0 0

/-- The contact of `[::1]:5678` prints as `::1:5678`, which is no socket address: it is
evicted by the next liveness ping even if it would answer it. -/
theorem loopbackPeer_evicted :
    loopbackPeer.printed = ⟨"::1", 5678⟩ ∧
      ∀ (readIpv6 : List Char → Option ((Ipv6Addr × UInt32) × List Char)) (senderId : NodeId)
        (call : Endpoint → Option RpcMessage) (s : NodeState),
        let node := Protocol.source senderId loopbackPeer.printed
        node.dial readIpv6 = none ∧
          Protocol.callPingNode node (node.callOutcome readIpv6 call) s =
            { s with router := s.router.removeContact node } := by
  refine ⟨by decide, fun readIpv6 senderId call s => ⟨?_, ?_⟩⟩
  · exact dial_source_v6 readIpv6 senderId _ _ _ _
  · exact callPingNode_v6 readIpv6 senderId _ _ _ _ call s

end AuthKademlia
