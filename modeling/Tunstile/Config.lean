/-
Tunstile/Config.lean

Reading a configuration file (`parse_config` of `tunstile/src/bin/tunstile.rs`).

The file is read line by line.  What a line says by itself is a `Line`; what it
means depends on the section it stands in, so the reader keeps the name of the
last header, the settings of the interface so far, and one entry for every
`[Peer]` header.  A key of a peer goes to the last of them.

What is parsed outside of this program (base64, prefixes, socket addresses,
host names) is a parameter, `Readers`.

At the end stands what every accepted file contains (`parseConfig_ok`): a
private key and an address of the interface, and a public key below every
`[Peer]` header.
-/
import Tunstile.Text
import Tunstile.Device

namespace Tunstile

open Text

abbrev PrivateKey := List.Vector UInt8 32

namespace Config

/-! ### Values -/

/-- `Option::ok_or`. -/
def okOr {α : Type} (error : String) : Option α → Except String α
  | none => .error error
  | some a => .ok a

/-- The parsers that other crates supply. -/
structure Readers where
  /-- `BASE64_STANDARD.decode_slice`. -/
  decodeBase64 : Text → Option Bytes
  /-- `IpNet::from_str`. -/
  parseNet : Text → Option IpNet
  /-- `SocketAddr::from_str`. -/
  parseSocketAddr : Text → Option SocketAddr
  /-- The system's resolution of a host and port. -/
  lookupHost : Text → Except String (List SocketAddr)

namespace Readers

variable (R : Readers)

/-- `key_from_base64`, which all three kinds of keys are read with. -/
def keyFromBase64 (t : Text) : Option (List.Vector UInt8 32) :=
  if (t.map Char.utf8Size).sum ≠ 44 then none
  else
    match R.decodeBase64 t with
    | none => none
    | some bytes => if h : bytes.length = 32 then some ⟨bytes, h⟩ else none

/-- `str::to_socket_addrs`: an address is not looked up. -/
def toSocketAddrs (t : Text) : Except String (List SocketAddr) :=
  match R.parseSocketAddr t with
  | some addr => .ok [addr]
  | none => R.lookupHost t

def resolve (endpoint : Text) : Except String SocketAddr :=
  match R.toSocketAddrs endpoint with
  | .error e => .error ("resolving Endpoint " ++ String.ofList endpoint ++ ": " ++ e)
  | .ok [] => .error ("Endpoint " ++ String.ofList endpoint ++ " resolved to no addresses")
  | .ok (addr :: _) => .ok addr

end Readers

/-- `u16::from_str`. -/
def parseU16 (t : Text) : Option UInt16 := (parseUnsigned (2 ^ 16) t).map UInt16.ofNat

/-! ### Lines -/

/-- What a line says by itself.  Names are in small letters. -/
inductive Line where
  | blank
  | header (name : Text)
  | pair (key value : Text)
  | malformed

def Line.read (raw : Text) : Line :=
  let line := trim (before '#' raw)
  if line = [] then .blank
  else
    match (stripPrefix '[' line).bind (stripSuffix ']') with
    | some name => .header (toAsciiLowercase (trim name))
    | none =>
        match splitOnce '=' line with
        | some (key, value) => .pair (toAsciiLowercase (trim key)) (trim value)
        | none => .malformed

/-- The section that a header begins. -/
def Line.heads : Line → Option Text
  | .header name => some name
  | _ => none

/-! ### Sections -/

/-- What was read of the interface. -/
structure InterfaceSection where
  privateKey : Option PrivateKey
  address : Option IpNet
  listenPort : UInt16
  mtu : Option UInt16

def InterfaceSection.default : InterfaceSection := ⟨none, none, 51820, none⟩

structure PeerSection where
  publicKey : Option PublicKey
  endpoint : Option SocketAddr
  presharedKey : Option PresharedKey
  keepalive : Option Duration
  allowedIps : List IpNet

def PeerSection.default : PeerSection := ⟨none, none, none, none, []⟩

/-- A key below `[Interface]`. -/
def InterfaceSection.key (R : Readers) (err : String → String) (s : InterfaceSection)
    (key value : Text) : Except String InterfaceSection :=
  if key = "privatekey".toList then
    (okOr (err "invalid PrivateKey") (R.keyFromBase64 value)).map fun key =>
      { s with privateKey := some key }
  else if key = "address".toList then
    (okOr (err "invalid Address") (R.parseNet (trim (before ',' value)))).map fun net =>
      { s with address := some net }
  else if key = "listenport".toList then
    (okOr (err "invalid ListenPort") (parseU16 value)).map fun port => { s with listenPort := port }
  else if key = "mtu".toList then
    (okOr (err "invalid MTU") (parseU16 value)).map fun mtu => { s with mtu := some mtu }
  else .ok s

/-- The loop over the prefixes of one line; empty ones are skipped. -/
def pushAllowedIps (R : Readers) (err : String → String) :
    List IpNet → List Text → Except String (List IpNet)
  | nets, [] => .ok nets
  | nets, cidr :: rest =>
      if cidr = [] then pushAllowedIps R err nets rest
      else
        match R.parseNet cidr with
        | none => .error (err "invalid AllowedIPs")
        | some net => pushAllowedIps R err (nets ++ [net]) rest

/-- Seconds between keepalives.  The bounds themselves are refused. -/
def parseKeepalive (err : String → String) (value : Text) : Except String Duration :=
  match parseUnsigned (2 ^ 64) value with
  | none => .error (err "invalid PersistentKeepalive")
  | some value =>
      if value = 0 ∨ value ≥ 65535 then .error "persistentkeepalive must be between 0 and 65535"
      else .ok (.fromSecs value)

/-- A key below `[Peer]`. -/
def PeerSection.key (R : Readers) (err : String → String) (peer : PeerSection)
    (key value : Text) : Except String PeerSection :=
  if key = "publickey".toList then
    (okOr (err "invalid PublicKey") (R.keyFromBase64 value)).map fun key =>
      { peer with publicKey := some key }
  else if key = "presharedkey".toList then
    (okOr (err "invalid PresharedKey") (R.keyFromBase64 value)).map fun key =>
      { peer with presharedKey := some key }
  else if key = "endpoint".toList then
    ((R.resolve value).mapError err).map fun addr => { peer with endpoint := some addr }
  else if key = "allowedips".toList then
    (pushAllowedIps R err peer.allowedIps ((value.splitOn ',').map trim)).map fun nets =>
      { peer with allowedIps := nets }
  else if key = "persistentkeepalive".toList then
    (parseKeepalive err value).map fun interval => { peer with keepalive := some interval }
  else .ok peer

/-! ### The file -/

structure State where
  sectionName : Text
  interface : InterfaceSection
  peers : List PeerSection

def State.start : State := ⟨[], .default, []⟩

def interfaceName : Text := "interface".toList

def peerName : Text := "peer".toList

/-- A header.  Every `[Peer]` begins a new peer. -/
def State.enter (s : State) (name : Text) : State :=
  { s with
    sectionName := name
    peers := if name = peerName then s.peers ++ [.default] else s.peers }

theorem State.enter_peer (s : State) : (s.enter peerName).interface = s.interface ∧
    (s.enter peerName).peers = s.peers ++ [.default] := by
  refine ⟨rfl, ?_⟩
  show (if peerName = peerName then s.peers ++ [.default] else s.peers) = _
  rw [if_pos rfl]

theorem State.enter_other (s : State) {name : Text} (h : name ≠ peerName) :
    s.enter name = { s with sectionName := name } := by
  rw [State.enter, if_neg h]

/-- A key with its value.  Those of other sections are skipped. -/
def State.pair (R : Readers) (err : String → String) (s : State) (key value : Text) :
    Except String State :=
  if s.sectionName = interfaceName then
    (s.interface.key R err key value).map fun interface => { s with interface := interface }
  else if s.sectionName = peerName then
    match s.peers.getLast? with
    | none => .error (err "key outside a [Peer]")
    | some peer =>
        (peer.key R err key value).map fun peer => { s with peers := s.peers.dropLast ++ [peer] }
  else .ok s

/-- The body of the loop over the lines; `i` counts them from zero. -/
def parseLine (R : Readers) (i : ℕ) (s : State) (raw : Text) : Except String State :=
  let err (what : String) : String := "line " ++ toString (i + 1) ++ ": " ++ what
  match Line.read raw with
  | .blank => .ok s
  | .header name => .ok (s.enter name)
  | .pair key value => s.pair R err key value
  | .malformed => .error (err "expected key = value")

def parseLines (R : Readers) : ℕ → State → List Text → Except String State
  | _, s, [] => .ok s
  | i, s, raw :: rest =>
      match parseLine R i s raw with
      | .error e => .error e
      | .ok s => parseLines R (i + 1) s rest

structure TunConfig where
  address : IpNet
  mtu : UInt16

structure ParsedConfig where
  listenAddr : SocketAddr
  privateKey : PrivateKey
  tunConfig : TunConfig
  peers : List (PublicKey × Device.PeerConfig)

/-- The loop over the peers at the end. -/
def peerConfigs : List PeerSection → Except String (List (PublicKey × Device.PeerConfig))
  | [] => .ok []
  | peer :: rest =>
      match peer.publicKey with
      | none => .error "[Peer] missing PublicKey"
      | some publicKey =>
          (peerConfigs rest).map fun configs =>
            (publicKey, ⟨peer.endpoint, peer.presharedKey, peer.keepalive, peer.allowedIps⟩) ::
              configs

/-- The address that listens on all interfaces. -/
def listenOn (port : UInt16) : SocketAddr := .v4 (List.Vector.replicate 4 0) port

def State.finish (s : State) : Except String ParsedConfig :=
  match s.interface.privateKey, s.interface.address with
  | none, _ => .error "[Interface] missing PrivateKey"
  | some _, none => .error "[Interface] missing Address"
  | some privateKey, some address =>
      (peerConfigs s.peers).map fun peers =>
        { listenAddr := listenOn s.interface.listenPort
          privateKey := privateKey
          tunConfig := ⟨address, s.interface.mtu.getD 1420⟩
          peers := peers }

def parseConfig (R : Readers) (text : Text) : Except String ParsedConfig :=
  match parseLines R 0 .start (lines text) with
  | .error e => .error e
  | .ok s => s.finish

/-! ### What an accepted file contains -/

/-- The name of the section after these lines. -/
def sectionAfter (ls : List Line) : Text := (ls.filterMap Line.heads).getLast?.getD []

/-- Below a header with this name stands this key. -/
def Given (name key : Text) (ls : List Line) : Prop :=
  ∃ pre value post, ls = pre ++ .pair key value :: post ∧ sectionAfter pre = name

/-- What stands below a header, up to the next one. -/
def body (ls : List Line) : List Line := ls.takeWhile fun l => l.heads.isNone

/-- Below every `[Peer]` stands a public key. -/
def PeersKeyed (ls : List Line) : Prop :=
  ∀ pre post, ls = pre ++ .header peerName :: post →
    ∃ value, .pair "publickey".toList value ∈ body post

variable {R : Readers} {err : String → String}

theorem exists_of_map_ok {ε α β : Type} {x : Except ε α} {f : α → β} {b : β}
    (h : x.map f = .ok b) : ∃ a, x = .ok a ∧ f a = b := by
  cases x with
  | error e => cases h
  | ok a => exact ⟨a, rfl, Except.ok.inj h⟩

theorem InterfaceSection.key_effect {s s' : InterfaceSection} {key value : Text}
    (h : s.key R err key value = .ok s') :
    (s'.privateKey.isSome = true → s.privateKey.isSome = true ∨ key = "privatekey".toList) ∧
      (s'.address.isSome = true → s.address.isSome = true ∨ key = "address".toList) := by
  unfold InterfaceSection.key at h
  split at h
  · rename_i hkey
    obtain ⟨k, -, rfl⟩ := exists_of_map_ok h
    exact ⟨fun _ => Or.inr hkey, Or.inl⟩
  split at h
  · rename_i hkey
    obtain ⟨net, -, rfl⟩ := exists_of_map_ok h
    exact ⟨Or.inl, fun _ => Or.inr hkey⟩
  split at h
  · obtain ⟨port, -, rfl⟩ := exists_of_map_ok h
    exact ⟨Or.inl, Or.inl⟩
  split at h
  · obtain ⟨mtu, -, rfl⟩ := exists_of_map_ok h
    exact ⟨Or.inl, Or.inl⟩
  · cases h
    exact ⟨Or.inl, Or.inl⟩

theorem PeerSection.key_effect {p p' : PeerSection} {key value : Text}
    (h : p.key R err key value = .ok p') (hkey : key ≠ "publickey".toList) :
    p'.publicKey = p.publicKey := by
  have hkept {α : Type} {x : Except String α} {f : α → PeerSection} (hmap : x.map f = .ok p')
      (hf : ∀ a, (f a).publicKey = p.publicKey) : p'.publicKey = p.publicKey := by
    obtain ⟨a, -, rfl⟩ := exists_of_map_ok hmap
    exact hf a
  unfold PeerSection.key at h
  rw [if_neg hkey] at h
  split_ifs at h
  · exact hkept h fun _ => rfl
  · exact hkept h fun _ => rfl
  · exact hkept h fun _ => rfl
  · exact hkept h fun _ => rfl
  · cases h
    rfl

/-- What a key can do, in whatever section. -/
structure PairEffect (s : State) (key : Text) (s' : State) : Prop where
  sectionName : s'.sectionName = s.sectionName
  privateKey : s'.interface.privateKey.isSome = true → s.interface.privateKey.isSome = true ∨
    s.sectionName = interfaceName ∧ key = "privatekey".toList
  address : s'.interface.address.isSome = true → s.interface.address.isSome = true ∨
    s.sectionName = interfaceName ∧ key = "address".toList
  peers : s'.peers = s.peers ∨ s.sectionName = peerName ∧
    ∃ ps p p', s.peers = ps ++ [p] ∧ s'.peers = ps ++ [p'] ∧
      (key ≠ "publickey".toList → p'.publicKey = p.publicKey)

theorem State.pair_effect {s s' : State} {key value : Text} (h : s.pair R err key value = .ok s') :
    PairEffect s key s' := by
  unfold State.pair at h
  split at h
  · rename_i hname
    obtain ⟨interface, hkey, rfl⟩ := exists_of_map_ok h
    obtain ⟨hprivate, haddress⟩ := InterfaceSection.key_effect hkey
    exact ⟨rfl, fun hs => (hprivate hs).imp_right fun hk => ⟨hname, hk⟩,
      fun hs => (haddress hs).imp_right fun hk => ⟨hname, hk⟩, Or.inl rfl⟩
  split at h
  · rename_i hname
    split at h
    · cases h
    · rename_i peer hlast
      obtain ⟨peer', hkey, rfl⟩ := exists_of_map_ok h
      have hpeers : s.peers = s.peers.dropLast ++ [peer] :=
        (List.dropLast_append_getLast? peer hlast).symm
      exact ⟨rfl, Or.inl, Or.inl, Or.inr ⟨hname, _, peer, peer', hpeers, rfl,
        PeerSection.key_effect hkey⟩⟩
  · cases h
    exact ⟨rfl, Or.inl, Or.inl, Or.inl rfl⟩

theorem parseLine_header {i : ℕ} {s : State} {raw name : Text} (h : Line.read raw = .header name) :
    parseLine R i s raw = .ok (s.enter name) := by
  rw [parseLine, h]

/-- What one line can do. -/
theorem parseLine_cases {i : ℕ} {s s' : State} {raw : Text} (h : parseLine R i s raw = .ok s') :
    (Line.read raw = .blank ∧ s' = s) ∨ (∃ name, Line.read raw = .header name ∧ s' = s.enter name) ∨
      ∃ key value, Line.read raw = .pair key value ∧ PairEffect s key s' := by
  unfold parseLine at h
  dsimp only at h
  cases hread : Line.read raw with
  | blank =>
      rw [hread] at h
      exact Or.inl ⟨rfl, (Except.ok.inj h).symm⟩
  | header name =>
      rw [hread] at h
      exact Or.inr (Or.inl ⟨name, rfl, (Except.ok.inj h).symm⟩)
  | pair key value =>
      rw [hread] at h
      exact Or.inr (Or.inr ⟨key, value, rfl, State.pair_effect h⟩)
  | malformed =>
      rw [hread] at h
      cases h

theorem parseLines_cons {i : ℕ} {s s' : State} {raw : Text} {rest : List Text} :
    parseLines R i s (raw :: rest) = .ok s' ↔
      ∃ t, parseLine R i s raw = .ok t ∧ parseLines R (i + 1) t rest = .ok s' := by
  rw [parseLines]
  cases parseLine R i s raw with
  | error e =>
      refine ⟨fun h => ?_, fun ⟨t, h, _⟩ => ?_⟩ <;> cases h
  | ok t =>
      refine ⟨fun h => ⟨t, rfl, h⟩, fun ⟨t', h, hrest⟩ => ?_⟩
      cases h
      exact hrest

theorem parseLines_append {i : ℕ} {s s' : State} {xs ys : List Text} :
    parseLines R i s (xs ++ ys) = .ok s' ↔
      ∃ t, parseLines R i s xs = .ok t ∧ parseLines R (i + xs.length) t ys = .ok s' := by
  induction xs generalizing i s with
  | nil =>
      refine ⟨fun h => ⟨s, rfl, h⟩, fun ⟨t, h, hrest⟩ => ?_⟩
      cases h
      exact hrest
  | cons x xs ih =>
      have hlen : i + (x :: xs).length = i + 1 + xs.length := by
        rw [List.length_cons]
        omega
      rw [hlen]
      constructor
      · intro h
        obtain ⟨t, hx, hrest⟩ := parseLines_cons.mp h
        obtain ⟨t', hxs, hys⟩ := ih.mp hrest
        exact ⟨t', parseLines_cons.mpr ⟨t, hx, hxs⟩, hys⟩
      · rintro ⟨t', hxxs, hys⟩
        obtain ⟨t, hx, hxs⟩ := parseLines_cons.mp hxxs
        exact parseLines_cons.mpr ⟨t, hx, ih.mpr ⟨t', hxs, hys⟩⟩

/-! #### The interface -/

theorem Given.append {name key : Text} {ls : List Line} (h : Given name key ls) (more : List Line) :
    Given name key (ls ++ more) := by
  obtain ⟨pre, value, post, rfl, hname⟩ := h
  exact ⟨pre, value, post ++ more, by rw [List.append_assoc, List.cons_append], hname⟩

theorem sectionAfter_concat (ls : List Line) (l : Line) :
    sectionAfter (ls ++ [l]) = l.heads.getD (sectionAfter ls) := by
  unfold sectionAfter
  rw [List.filterMap_append]
  cases hl : l.heads with
  | none => rw [List.filterMap_cons_none hl, List.filterMap_nil, List.append_nil, Option.getD_none]
  | some name =>
      rw [List.filterMap_cons_some hl, List.filterMap_nil, List.getLast?_concat]
      rfl

/-- What was read so far comes from the lines so far. -/
structure ReadFrom (ls : List Line) (s : State) : Prop where
  sectionName : s.sectionName = sectionAfter ls
  privateKey : s.interface.privateKey.isSome = true → Given interfaceName "privatekey".toList ls
  address : s.interface.address.isSome = true → Given interfaceName "address".toList ls

theorem ReadFrom.line {ls : List Line} {i : ℕ} {s s' : State} {raw : Text} (hs : ReadFrom ls s)
    (h : parseLine R i s raw = .ok s') : ReadFrom (ls ++ [Line.read raw]) s' := by
  rcases parseLine_cases h with ⟨hread, rfl⟩ | ⟨name, hread, rfl⟩ | ⟨key, value, hread, heff⟩
  · refine ⟨?_, fun hsome => (hs.privateKey hsome).append _,
      fun hsome => (hs.address hsome).append _⟩
    rw [sectionAfter_concat, hread]
    exact hs.sectionName
  · refine ⟨?_, fun hsome => (hs.privateKey hsome).append _,
      fun hsome => (hs.address hsome).append _⟩
    rw [sectionAfter_concat, hread]
    rfl
  · have hgiven (hname : s.sectionName = interfaceName) :
        Given interfaceName key (ls ++ [Line.read raw]) :=
      ⟨ls, value, [], by rw [hread], hs.sectionName.symm.trans hname⟩
    refine ⟨?_, fun hsome => ?_, fun hsome => ?_⟩
    · rw [sectionAfter_concat, hread, heff.sectionName]
      exact hs.sectionName
    · rcases heff.privateKey hsome with hold | ⟨hname, hkey⟩
      · exact (hs.privateKey hold).append _
      · exact hkey ▸ hgiven hname
    · rcases heff.address hsome with hold | ⟨hname, hkey⟩
      · exact (hs.address hold).append _
      · exact hkey ▸ hgiven hname

theorem ReadFrom.lines {ls : List Line} {i : ℕ} {s s' : State} {raws : List Text}
    (hs : ReadFrom ls s) (h : parseLines R i s raws = .ok s') :
    ReadFrom (ls ++ raws.map Line.read) s' := by
  induction raws generalizing ls i s with
  | nil =>
      cases h
      rw [List.map_nil, List.append_nil]
      exact hs
  | cons raw rest ih =>
      obtain ⟨t, hraw, hrest⟩ := parseLines_cons.mp h
      have hread := ih (hs.line hraw) hrest
      rwa [List.append_assoc, List.singleton_append] at hread

/-! #### The peers -/

/-- Some peer before the one that is being read has no public key. -/
def Lacking (s : State) : Prop :=
  ∃ ps p qs, s.peers = ps ++ p :: qs ∧ p.publicKey = none ∧ (s.sectionName = peerName → qs ≠ [])

theorem Lacking.enter {s : State} {ps qs : List PeerSection} {p : PeerSection}
    (hpeers : s.peers = ps ++ p :: qs) (hp : p.publicKey = none) (name : Text) :
    Lacking (s.enter name) := by
  by_cases hname : name = peerName
  · refine ⟨ps, p, qs ++ [.default], ?_, hp, fun _ => List.concat_ne_nil _ _⟩
    show (if name = peerName then s.peers ++ [.default] else s.peers) = _
    rw [if_pos hname, hpeers, List.append_assoc, List.cons_append]
  · refine ⟨ps, p, qs, ?_, hp, fun h => absurd h hname⟩
    show (if name = peerName then s.peers ++ [.default] else s.peers) = _
    rw [if_neg hname, hpeers]

theorem Lacking.lines {i : ℕ} {s s' : State} {raws : List Text} (hs : Lacking s)
    (h : parseLines R i s raws = .ok s') : Lacking s' := by
  induction raws generalizing i s with
  | nil =>
      cases h
      exact hs
  | cons raw rest ih =>
      obtain ⟨t, hraw, hrest⟩ := parseLines_cons.mp h
      refine ih ?_ hrest
      obtain ⟨ps, p, qs, hpeers, hp, hqs⟩ := hs
      rcases parseLine_cases hraw with ⟨-, rfl⟩ | ⟨name, -, rfl⟩ | ⟨key, value, -, heff⟩
      · exact ⟨ps, p, qs, hpeers, hp, hqs⟩
      · exact Lacking.enter hpeers hp name
      · rcases heff.peers with hsame | ⟨hname, qs', q, q', hlast, hlast', -⟩
        · exact ⟨ps, p, qs, hsame.trans hpeers, hp, fun hpeer => hqs (heff.sectionName ▸ hpeer)⟩
        · -- only the last peer changes, which is not `p`
          obtain ⟨qs₀, q₀, rfl⟩ := (List.eq_nil_or_concat qs).resolve_left (hqs hname)
          have hsplit : qs' ++ [q] = (ps ++ p :: qs₀) ++ [q₀] := by
            rw [← hlast, hpeers, List.concat_eq_append, List.append_assoc, List.cons_append]
          obtain ⟨rfl, -⟩ := List.append_inj' hsplit rfl
          refine ⟨ps, p, qs₀ ++ [q'], ?_, hp, fun _ => List.concat_ne_nil _ _⟩
          rw [hlast', List.append_assoc, List.cons_append]

theorem body_cons {l : Line} (h : l.heads = none) (ls : List Line) :
    body (l :: ls) = l :: body ls :=
  List.takeWhile_cons_of_pos (Option.isNone_iff_eq_none.mpr h)

/-- Below a `[Peer]` without a public key nothing else sets one. -/
theorem lacking_of_body {i : ℕ} {s s' : State} {ps : List PeerSection} {p : PeerSection}
    {raws : List Text} (hpeers : s.peers = ps ++ [p]) (hp : p.publicKey = none)
    (hbody : ∀ value, .pair "publickey".toList value ∉ body (raws.map Line.read))
    (h : parseLines R i s raws = .ok s') : ∃ p ∈ s'.peers, p.publicKey = none := by
  induction raws generalizing i s p with
  | nil =>
      cases h
      exact ⟨p, hpeers ▸ List.mem_concat_self, hp⟩
  | cons raw rest ih =>
      obtain ⟨t, hraw, hrest⟩ := parseLines_cons.mp h
      rw [List.map_cons] at hbody
      rcases parseLine_cases hraw with ⟨hread, rfl⟩ | ⟨name, -, rfl⟩ | ⟨key, value, hread, heff⟩
      · rw [hread, body_cons rfl] at hbody
        exact ih hpeers hp (fun value hmem => hbody value (List.mem_cons_of_mem _ hmem)) hrest
      · obtain ⟨ps', p', qs, hpeers', hp', -⟩ := (Lacking.enter hpeers hp name).lines hrest
        exact ⟨p', hpeers' ▸ List.mem_append_cons_self, hp'⟩
      · rw [hread, body_cons rfl] at hbody
        have hbody' : ∀ value, .pair "publickey".toList value ∉ body (rest.map Line.read) :=
          fun value hmem => hbody value (List.mem_cons_of_mem _ hmem)
        have hkey : key ≠ "publickey".toList := by
          rintro rfl
          exact hbody value List.mem_cons_self
        rcases heff.peers with hsame | ⟨-, ps', q, q', hlast, hlast', hkept⟩
        · exact ih (hsame.trans hpeers) hp hbody' hrest
        · obtain ⟨rfl, hq⟩ := List.append_inj' (hlast.symm.trans hpeers) rfl
          cases hq
          exact ih hlast' ((hkept hkey).trans hp) hbody' hrest

theorem keyed_of_peerConfigs {peers : List PeerSection}
    {configs : List (PublicKey × Device.PeerConfig)} (h : peerConfigs peers = .ok configs) :
    ∀ p ∈ peers, p.publicKey.isSome = true := by
  induction peers generalizing configs with
  | nil => exact fun _ hp => by cases hp
  | cons peer rest ih =>
      rw [peerConfigs] at h
      split at h
      · cases h
      · rename_i publicKey hkey
        obtain ⟨configs', hrest, -⟩ := exists_of_map_ok h
        refine List.forall_mem_cons.mpr ⟨?_, ih hrest⟩
        rw [hkey]
        rfl

/-- Below every `[Peer]` of an accepted file stands a public key. -/
theorem peersKeyed_of_ok {i : ℕ} {s s' : State} {raws : List Text}
    (h : parseLines R i s raws = .ok s') (hkeyed : ∀ p ∈ s'.peers, p.publicKey.isSome = true) :
    PeersKeyed (raws.map Line.read) := by
  intro pre post hsplit
  by_contra hnone
  obtain ⟨xs, ys, rfl, rfl, hys⟩ := List.map_eq_append_iff.mp hsplit
  obtain ⟨raw, rest, rfl, hread, rfl⟩ := List.map_eq_cons_iff.mp hys
  obtain ⟨t, -, hfrom⟩ := parseLines_append.mp h
  obtain ⟨u, hraw, hrest⟩ := parseLines_cons.mp hfrom
  cases hraw.symm.trans (parseLine_header hread)
  obtain ⟨p, hp, hlacks⟩ := lacking_of_body t.enter_peer.2 rfl
    (fun value hmem => hnone ⟨value, hmem⟩) hrest
  have hsome := hkeyed p hp
  rw [hlacks] at hsome
  cases hsome

/-- **What an accepted file contains.** -/
theorem parseConfig_ok {text : Text} {config : ParsedConfig}
    (h : parseConfig R text = .ok config) :
    Given interfaceName "privatekey".toList ((lines text).map Line.read) ∧
      Given interfaceName "address".toList ((lines text).map Line.read) ∧
      PeersKeyed ((lines text).map Line.read) := by
  unfold parseConfig at h
  cases hlines : parseLines R 0 .start (lines text) with
  | error e =>
      rw [hlines] at h
      cases h
  | ok s =>
      rw [hlines] at h
      have hstart : ReadFrom [] State.start :=
        ⟨rfl, fun hs => Bool.noConfusion hs, fun hs => Bool.noConfusion hs⟩
      have hread := hstart.lines hlines
      dsimp only at h
      unfold State.finish at h
      split at h
      · cases h
      · cases h
      · rename_i privateKey address hprivate haddress
        obtain ⟨peers, hpeers, -⟩ := exists_of_map_ok h
        refine ⟨hread.privateKey ?_, hread.address ?_,
          peersKeyed_of_ok hlines (keyed_of_peerConfigs hpeers)⟩
        · rw [hprivate]
          rfl
        · rw [haddress]
          rfl

end Config

end Tunstile
