/-
Tunstile/ConfigMeaning.lean

Configuration files mean what they say.

`Settings` are what a configuration is about; a file renders them when its
lines hold each of them once, in any order, and the prefixes of a peer on any
number of lines (`File.Renders`).  Reading such a file line by line, a setting
changes the section it stands in and nothing else, so the parser ends with the
settings of the interface and of every peer, in the order of the file.

It is assumed of the printed values only that they are read back
(`Settings.Legible`).
-/
import Tunstile.ConfigFile

namespace Tunstile

open Text

namespace Config

variable {R : Readers}

/-! ### The lines of a text -/

theorem parseLine_congr {i : ℕ} {s : State} {raw raw' : Text}
    (h : Line.read raw = Line.read raw') : parseLine R i s raw = parseLine R i s raw' := by
  rw [parseLine, parseLine, h]

theorem parseLines_congr {raws raws' : List Text}
    (h : raws.map Line.read = raws'.map Line.read) (i : ℕ) (s : State) :
    parseLines R i s raws = parseLines R i s raws' := by
  induction raws generalizing raws' i s with
  | nil =>
      rw [List.map_nil, eq_comm, List.map_eq_nil_iff] at h
      rw [h]
  | cons raw rest ih =>
      obtain ⟨raw', rest', rfl, hraw, hrest⟩ := List.map_eq_cons_iff.mp h.symm
      rw [parseLines, parseLines, parseLine_congr hraw]
      cases parseLine R i s raw with
      | error e => rfl
      | ok t => exact ih hrest.symm (i + 1) t

/-- A carriage return at the end of a line is white space. -/
theorem read_stripCr (raw : Text) : Line.read (stripCr raw) = Line.read raw := by
  unfold stripCr stripSuffix
  split
  · rename_i hlast
    obtain ⟨t, rfl⟩ := List.getLast?_eq_some_iff.mp hlast
    rw [List.dropLast_concat]
    have hcut : trim (before '#' (t ++ ['\r'])) = trim (before '#' t) := by
      by_cases hmem : '#' ∈ t
      · rw [before_append_of_mem hmem]
      · rw [before_append hmem, before_of_not_mem hmem]
        exact trim_append_blank (.of_all (by decide))
    show Line.read t = _
    unfold Line.read
    rw [hcut]
  · rfl

theorem parseLines_concat_nil (raws : List Text) (i : ℕ) (s : State) :
    parseLines R i s (raws ++ [[]]) = parseLines R i s raws := by
  induction raws generalizing i s with
  | nil => rfl
  | cons raw rest ih =>
      rw [List.cons_append, parseLines, parseLines]
      cases parseLine R i s raw with
      | error e => rfl
      | ok t => exact ih (i + 1) t

/-- A text put together from lines is read as these lines. -/
theorem parseLines_intercalate {ls : List Text} (hls : ∀ l ∈ ls, '\n' ∉ l) (i : ℕ) (s : State) :
    parseLines R i s (lines (['\n'].intercalate ls)) = parseLines R i s ls := by
  rcases List.eq_nil_or_concat ls with rfl | ⟨init, last, rfl⟩
  · rfl
  rw [List.concat_eq_append] at hls ⊢
  have hpieces : (['\n'].intercalate (init ++ [last])).splitOn '\n' = init ++ [last] :=
    List.splitOn_intercalate '\n' hls (List.concat_ne_nil _ _)
  unfold lines
  dsimp only
  rw [hpieces, List.dropLast_concat, List.getLast?_concat]
  have hinit : (init.map stripCr).map Line.read = init.map Line.read := by
    rw [List.map_map]
    exact List.map_congr_left fun raw _ => read_stripCr raw
  by_cases hlast : last = []
  · -- what follows the last line break is no line when it is empty
    subst hlast
    show parseLines R i s (init.map stripCr ++ []) = _
    rw [List.append_nil, parseLines_concat_nil, parseLines_congr hinit]
  · rw [Option.filter_some, if_pos (decide_eq_true hlast)]
    refine parseLines_congr ?_ i s
    rw [List.map_append, List.map_append, hinit]
    rfl

/-! ### Reading some lines -/

/-- These lines are accepted, wherever they stand, and lead from `s` to
`s'`. -/
def Reads (R : Readers) (s : State) (raws : List Text) (s' : State) : Prop :=
  ∀ i, parseLines R i s raws = .ok s'

namespace Reads

theorem nil (s : State) : Reads R s [] s := fun _ => rfl

theorem append {s t u : State} {xs ys : List Text} (hx : Reads R s xs t) (hy : Reads R t ys u) :
    Reads R s (xs ++ ys) u := fun i => parseLines_append.mpr ⟨t, hx i, hy _⟩

theorem cons {s t u : State} {raw : Text} {rest : List Text}
    (hraw : ∀ i, parseLine R i s raw = .ok t) (hrest : Reads R t rest u) :
    Reads R s (raw :: rest) u := fun i => parseLines_cons.mpr ⟨t, hraw i, hrest _⟩

/-- The lines of a section: its settings change `a`, from which `build` makes
the state of the parser. -/
theorem body {V : Vocabulary} {τ : Type} (build : τ → State) (apply : τ → V.Setting → τ)
    (Legible : V.Setting → Prop)
    (hsetting : ∀ err a x, Legible x →
      (build a).pair R err (V.word x) (trim (V.value x)) = .ok (build (apply a x)))
    (hignored : ∀ err a key value, key ∉ V.words → (build a).pair R err key value = .ok (build a))
    {body : List (BodyLine V)} (hlegible : ∀ x ∈ body.flatMap BodyLine.settings, Legible x)
    (a : τ) :
    Reads R (build a) (body.map BodyLine.text)
      (build ((body.flatMap BodyLine.settings).foldl apply a)) := by
  induction body generalizing a with
  | nil => exact nil _
  | cons l rest ih =>
      rw [List.flatMap_cons] at hlegible
      obtain ⟨hl, hrest⟩ := List.forall_mem_append.mp hlegible
      rw [List.flatMap_cons, List.foldl_append]
      refine cons (t := build (l.settings.foldl apply a)) (fun i => ?_) (ih hrest _)
      cases l with
      | blank trailer =>
          rw [parseLine, BodyLine.text, read_blank]
          rfl
      | setting x front name back gap trailer =>
          rw [parseLine, BodyLine.read_setting]
          exact hsetting _ a x (hl x List.mem_cons_self)
      | ignored line =>
          rw [parseLine, BodyLine.read_ignored]
          exact hignored _ a _ _ line.unknown

end Reads

/-! ### What settings do -/

namespace InterfaceSetting

def apply (s : InterfaceSection) : InterfaceSetting → InterfaceSection
  | privateKey key => { s with privateKey := some key }
  | address net => { s with address := some net }
  | listenPort port => { s with listenPort := port }
  | mtu size => { s with mtu := some size }

/-- The value is read back from its printed form. -/
def Legible (R : Readers) : InterfaceSetting → Prop
  | privateKey key => R.keyFromBase64 (fmtKeyBase64 key) = some key
  | address net => R.parseNet net.fmt = some net
  | _ => True

theorem parseU16_toDigits (n : UInt16) : parseU16 (Nat.toDigits 10 n.toNat) = some n := by
  rw [parseU16, parseUnsigned_toDigits n.toNat_lt, Option.map_some, UInt16.ofNat_toNat]

theorem key_apply {x : InterfaceSetting} (hx : x.Legible R) (err : String → String)
    (s : InterfaceSection) : s.key R err x.word (trim x.value) = .ok (x.apply s) := by
  rw [x.plain_value.solid.trim]
  cases x with
  | privateKey key =>
      have hread : R.keyFromBase64 (fmtKeyBase64 key) = some key := hx
      show s.key R err "privatekey".toList (fmtKeyBase64 key) = _
      rw [InterfaceSection.key, if_pos rfl, hread]
      rfl
  | address net =>
      have hread : R.parseNet net.fmt = some net := hx
      have hcomma : ',' ∉ net.fmt := net.plain_fmt.not_mem (by decide)
      show s.key R err "address".toList net.fmt = _
      rw [InterfaceSection.key, if_neg (by decide), if_pos rfl, before_of_not_mem hcomma,
        net.plain_fmt.solid.trim, hread]
      rfl
  | listenPort port =>
      show s.key R err "listenport".toList (Nat.toDigits 10 port.toNat) = _
      rw [InterfaceSection.key, if_neg (by decide), if_neg (by decide), if_pos rfl,
        parseU16_toDigits]
      rfl
  | mtu size =>
      show s.key R err "mtu".toList (Nat.toDigits 10 size.toNat) = _
      rw [InterfaceSection.key, if_neg (by decide), if_neg (by decide), if_neg (by decide),
        if_pos rfl, parseU16_toDigits]
      rfl

end InterfaceSetting

/-- The prefixes of one line. -/
theorem pushAllowedIps_pieces {err : String → String} {pieces : List Piece}
    (h : ∀ net ∈ pieces.filterMap Piece.net, R.parseNet net.fmt = some net) (nets : List IpNet) :
    pushAllowedIps R err nets (pieces.map Piece.shown)
      = .ok (nets ++ pieces.filterMap Piece.net) := by
  induction pieces generalizing nets with
  | nil =>
      rw [List.filterMap_nil, List.append_nil]
      rfl
  | cons p rest ih =>
      rw [List.map_cons, pushAllowedIps]
      cases hnet : p.net with
      | none =>
          have hshown : p.shown = [] := by rw [Piece.shown, hnet]; rfl
          rw [List.filterMap_cons_none hnet] at h ⊢
          rw [if_pos hshown]
          exact ih h nets
      | some net =>
          have hshown : p.shown = net.fmt := by rw [Piece.shown, hnet]; rfl
          rw [List.filterMap_cons_some hnet] at h ⊢
          obtain ⟨hread, hrest⟩ := List.forall_mem_cons.mp h
          rw [hshown, if_neg net.fmt_ne_nil, hread]
          dsimp only
          rw [ih hrest, List.append_assoc, List.singleton_append]

namespace PeerSetting

def apply (p : PeerSection) : PeerSetting → PeerSection
  | publicKey key => { p with publicKey := some key }
  | presharedKey key => { p with presharedKey := some key }
  | endpoint addr => { p with endpoint := some addr }
  | allowedIps pieces => { p with allowedIps := p.allowedIps ++ pieces.filterMap Piece.net }
  | persistentKeepalive interval => { p with keepalive := some (.fromSecs interval.secs) }

/-- The values are read back from their printed forms. -/
def Legible (R : Readers) : PeerSetting → Prop
  | publicKey key => R.keyFromBase64 (fmtKeyBase64 key) = some key
  | presharedKey key => R.keyFromBase64 (fmtKeyBase64 key) = some key
  | endpoint addr => R.parseSocketAddr addr.fmt = some addr
  | allowedIps pieces => ∀ net ∈ pieces.filterMap Piece.net, R.parseNet net.fmt = some net
  | persistentKeepalive _ => True

/-- The pieces of a line of prefixes, once they are cut and trimmed. -/
theorem pushAllowedIps_value {err : String → String} {pieces : List Piece}
    (h : (allowedIps pieces).Legible R) (nets : List IpNet) :
    pushAllowedIps R err nets (((trim (allowedIps pieces).value).splitOn ',').map trim)
      = .ok (nets ++ pieces.filterMap Piece.net) := by
  rw [map_trim_splitOn_trim (by decide)]
  show pushAllowedIps R err nets
    ((([','].intercalate (pieces.map Piece.text)).splitOn ',').map trim) = _
  by_cases hnil : pieces = []
  · subst hnil
    rw [List.filterMap_nil, List.append_nil]
    rfl
  · have hcomma : ∀ t ∈ pieces.map Piece.text, ',' ∉ t := by
      intro t ht
      obtain ⟨p, -, rfl⟩ := List.mem_map.mp ht
      exact p.not_mem ⟨p.front.not_mem (by decide), p.back.not_mem (by decide)⟩ (by decide)
    have hshown : (pieces.map Piece.text).map trim = pieces.map Piece.shown := by
      rw [List.map_map]
      exact List.map_congr_left fun p _ =>
        trim_surrounded p.front.blank p.plain_shown.solid p.back.blank
    rw [List.splitOn_intercalate ',' hcomma (fun heq => hnil (List.map_eq_nil_iff.mp heq)), hshown]
    exact pushAllowedIps_pieces h nets

theorem parseKeepalive_toDigits (err : String → String) (interval : Keepalive) :
    parseKeepalive err (Nat.toDigits 10 interval.secs) = .ok (.fromSecs interval.secs) := by
  have hpos := interval.pos
  have hle := interval.le
  have hbound : interval.secs < 2 ^ 64 := hle.trans_lt (by decide)
  rw [parseKeepalive, parseUnsigned_toDigits hbound]
  dsimp only
  rw [if_neg (by omega)]

theorem key_apply {x : PeerSetting} (hx : x.Legible R) (err : String → String) (p : PeerSection) :
    p.key R err x.word (trim x.value) = .ok (x.apply p) := by
  cases x with
  | publicKey key =>
      have hread : R.keyFromBase64 (fmtKeyBase64 key) = some key := hx
      show p.key R err "publickey".toList (trim (fmtKeyBase64 key)) = _
      rw [(plain_fmtKeyBase64 key).solid.trim, PeerSection.key, if_pos rfl, hread]
      rfl
  | presharedKey key =>
      have hread : R.keyFromBase64 (fmtKeyBase64 key) = some key := hx
      show p.key R err "presharedkey".toList (trim (fmtKeyBase64 key)) = _
      rw [(plain_fmtKeyBase64 key).solid.trim, PeerSection.key, if_neg (by decide), if_pos rfl,
        hread]
      rfl
  | endpoint addr =>
      have hread : R.parseSocketAddr addr.fmt = some addr := hx
      have hresolve : R.resolve addr.fmt = .ok addr := by
        rw [Readers.resolve, Readers.toSocketAddrs, hread]
      show p.key R err "endpoint".toList (trim addr.fmt) = _
      rw [addr.plain_fmt.solid.trim, PeerSection.key, if_neg (by decide), if_neg (by decide),
        if_pos rfl, hresolve]
      rfl
  | allowedIps pieces =>
      show p.key R err "allowedips".toList (trim (allowedIps pieces).value) = _
      rw [PeerSection.key, if_neg (by decide), if_neg (by decide), if_neg (by decide), if_pos rfl,
        pushAllowedIps_value hx]
      rfl
  | persistentKeepalive interval =>
      have hdigits : Plain (Nat.toDigits 10 interval.secs) := plain_toDigits (by decide) _
      show p.key R err "persistentkeepalive".toList (trim (Nat.toDigits 10 interval.secs)) = _
      rw [hdigits.solid.trim, PeerSection.key, if_neg (by decide), if_neg (by decide),
        if_neg (by decide), if_neg (by decide), if_pos rfl, parseKeepalive_toDigits]
      rfl

end PeerSetting

/-! ### Sections -/

theorem InterfaceSection.key_ignored {key : Text} (h : key ∉ Vocabulary.interface.words)
    (err : String → String) (s : InterfaceSection) (value : Text) :
    s.key R err key value = .ok s := by
  have hne {word : Text} (hword : word ∈ Vocabulary.interface.words) : key ≠ word :=
    fun heq => h (heq ▸ hword)
  rw [InterfaceSection.key, if_neg (hne (by decide)), if_neg (hne (by decide)),
    if_neg (hne (by decide)), if_neg (hne (by decide))]

theorem PeerSection.key_ignored {key : Text} (h : key ∉ Vocabulary.peer.words)
    (err : String → String) (p : PeerSection) (value : Text) : p.key R err key value = .ok p := by
  have hne {word : Text} (hword : word ∈ Vocabulary.peer.words) : key ≠ word :=
    fun heq => h (heq ▸ hword)
  rw [PeerSection.key, if_neg (hne (by decide)), if_neg (hne (by decide)),
    if_neg (hne (by decide)), if_neg (hne (by decide)), if_neg (hne (by decide))]

theorem State.pair_interface (s : State) (hname : s.sectionName = interfaceName)
    {interface : InterfaceSection} {err : String → String} {key value : Text}
    (h : s.interface.key R err key value = .ok interface) :
    s.pair R err key value = .ok { s with interface := interface } := by
  rw [State.pair, if_pos hname, h]
  rfl

theorem State.pair_peer {s : State} (hname : s.sectionName = peerName) {ps : List PeerSection}
    {p p' : PeerSection} (hpeers : s.peers = ps ++ [p]) {err : String → String} {key value : Text}
    (h : p.key R err key value = .ok p') :
    s.pair R err key value = .ok { s with peers := ps ++ [p'] } := by
  have hother : ¬ s.sectionName = interfaceName := by
    rw [hname]
    decide
  rw [State.pair, if_neg hother, if_pos hname, hpeers, List.getLast?_concat]
  dsimp only
  rw [h, List.dropLast_concat]
  rfl

theorem State.pair_other {s : State} (hname : s.sectionName ≠ interfaceName ∧
    s.sectionName ≠ peerName) (err : String → String) (key value : Text) :
    s.pair R err key value = .ok s := by
  rw [State.pair, if_neg hname.1, if_neg hname.2]

/-- Lines that mean nothing. -/
theorem reads_other {s : State} (hname : s.sectionName ≠ interfaceName ∧ s.sectionName ≠ peerName)
    (body : List (BodyLine .other)) : Reads R s (body.map BodyLine.text) s :=
  Reads.body (V := .other) (fun _ : Unit => s) (fun a _ => a) (fun _ => True)
    (fun _ _ x _ => x.elim) (fun err _ key value _ => State.pair_other hname err key value)
    (fun x _ => x.elim) ()

def Section.name : Section → Text
  | interface header _ _ => header.name
  | peer header _ _ => header.name
  | other header _ _ => header.name

/-- The state after a section. -/
def Section.after (s : State) (x : Section) : State where
  sectionName := x.name
  interface := x.interfaceSettings.foldl InterfaceSetting.apply s.interface
  peers := s.peers ++ (x.peerSettings.map fun settings =>
    settings.foldl PeerSetting.apply .default).toList

/-- Every value of the section is read back from its printed form. -/
structure Section.Legible (R : Readers) (x : Section) : Prop where
  interface : ∀ setting ∈ x.interfaceSettings, setting.Legible R
  peer : ∀ settings, x.peerSettings = some settings → ∀ setting ∈ settings, setting.Legible R

theorem reads_section {x : Section} (hx : x.Legible R) (s : State) :
    Reads R s x.lines (x.after s) := by
  cases x with
  | interface header named body =>
      have hother : header.name ≠ peerName := by
        rw [named]
        decide
      refine Reads.cons (t := { s with sectionName := header.name }) (fun i => ?_) ?_
      · rw [parseLine_header header.read_text, s.enter_other hother]
      · have hbody := Reads.body (V := .interface)
          (fun interface => ⟨header.name, interface, s.peers⟩) InterfaceSetting.apply
          (InterfaceSetting.Legible R)
          (fun err interface setting hsetting => State.pair_interface _ named
            (InterfaceSetting.key_apply hsetting err interface))
          (fun err interface key value hkey => State.pair_interface _ named
            (InterfaceSection.key_ignored hkey err interface value)) hx.interface s.interface
        show Reads R _ _ ⟨header.name, _, s.peers ++ []⟩
        rw [List.append_nil]
        exact hbody
  | peer header named body =>
      refine Reads.cons (t := ⟨header.name, s.interface, s.peers ++ [.default]⟩) (fun i => ?_) ?_
      · rw [parseLine_header header.read_text, State.enter, if_pos named]
      · exact Reads.body (V := .peer) (fun p => ⟨header.name, s.interface, s.peers ++ [p]⟩)
          PeerSetting.apply (PeerSetting.Legible R)
          (fun err p setting hsetting => State.pair_peer named rfl
            (PeerSetting.key_apply hsetting err p))
          (fun err p key value hkey => State.pair_peer named rfl
            (PeerSection.key_ignored hkey err p value)) (hx.peer _ rfl) .default
  | other header named body =>
      refine Reads.cons (t := { s with sectionName := header.name }) (fun i => ?_) ?_
      · rw [parseLine_header header.read_text, s.enter_other named.2]
      · show Reads R _ _ ⟨header.name, s.interface, s.peers ++ []⟩
        rw [List.append_nil]
        exact reads_other named body

/-! ### Files -/

theorem reads_sections {xs : List Section} (hxs : ∀ x ∈ xs, x.Legible R) (s : State) :
    Reads R s (xs.flatMap Section.lines) (xs.foldl Section.after s) := by
  induction xs generalizing s with
  | nil => exact Reads.nil s
  | cons x rest ih =>
      obtain ⟨hx, hrest⟩ := List.forall_mem_cons.mp hxs
      rw [List.flatMap_cons, List.foldl_cons]
      exact (reads_section hx s).append (ih hrest _)

/-- What sections leave: the settings of the interface as if they stood in
one section, and a peer for each of its headers. -/
theorem foldl_after (xs : List Section) (s : State) :
    (xs.foldl Section.after s).interface
        = (xs.flatMap Section.interfaceSettings).foldl InterfaceSetting.apply s.interface ∧
      (xs.foldl Section.after s).peers = s.peers ++ (xs.filterMap Section.peerSettings).map
        fun settings => settings.foldl PeerSetting.apply .default := by
  induction xs generalizing s with
  | nil => exact ⟨rfl, (List.append_nil _).symm⟩
  | cons x rest ih =>
      obtain ⟨hinterface, hpeers⟩ := ih (x.after s)
      rw [List.foldl_cons, List.flatMap_cons, List.foldl_append]
      refine ⟨hinterface, hpeers.trans ?_⟩
      show s.peers ++ _ ++ _ = _
      rw [List.append_assoc]
      cases hx : x.peerSettings with
      | none =>
          rw [List.filterMap_cons_none hx]
          rfl
      | some settings =>
          rw [List.filterMap_cons_some hx]
          rfl

namespace File

/-- What the parser has read at the end of a file. -/
def state (f : File) : State := f.sections.foldl Section.after .start

theorem parseConfig_text {f : File} (hf : ∀ x ∈ f.sections, x.Legible R) :
    parseConfig R f.text = f.state.finish := by
  have hpreamble : Reads R .start (f.preamble.map BodyLine.text) .start :=
    reads_other ⟨by decide, by decide⟩ f.preamble
  have hlines : Reads R .start f.lines f.state := hpreamble.append (reads_sections hf .start)
  have hlast : ∀ l ∈ f.lines ++ (if f.terminated then [[]] else []), '\n' ∉ l := by
    refine List.forall_mem_append.mpr ⟨f.oneLine, fun l hl => ?_⟩
    split at hl
    · rw [List.mem_singleton.mp hl]
      exact List.not_mem_nil
    · cases hl
  have hall : parseLines R 0 .start (f.lines ++ if f.terminated then [[]] else [])
      = .ok f.state := by
    split
    · rw [parseLines_concat_nil, hlines 0]
    · rw [List.append_nil, hlines 0]
  rw [parseConfig, text, parseLines_intercalate hlast, hall]

end File

/-! ### Settings and what renders them -/

namespace InterfaceSetting

def asPrivateKey : InterfaceSetting → Option PrivateKey
  | privateKey key => some key
  | _ => none

def asAddress : InterfaceSetting → Option IpNet
  | address net => some net
  | _ => none

def asListenPort : InterfaceSetting → Option UInt16
  | listenPort port => some port
  | _ => none

def asMtu : InterfaceSetting → Option UInt16
  | mtu size => some size
  | _ => none

end InterfaceSetting

namespace PeerSetting

def asPublicKey : PeerSetting → Option PublicKey
  | publicKey key => some key
  | _ => none

def asPresharedKey : PeerSetting → Option PresharedKey
  | presharedKey key => some key
  | _ => none

def asEndpoint : PeerSetting → Option SocketAddr
  | endpoint addr => some addr
  | _ => none

def asKeepalive : PeerSetting → Option Keepalive
  | persistentKeepalive interval => some interval
  | _ => none

def nets : PeerSetting → List IpNet
  | allowedIps pieces => pieces.filterMap Piece.net
  | _ => []

end PeerSetting

structure PeerSettings where
  publicKey : PublicKey
  presharedKey : Option PresharedKey
  endpoint : Option SocketAddr
  keepalive : Option Keepalive
  allowedIps : List IpNet

/-- What a configuration file is written for. -/
structure Settings where
  privateKey : PrivateKey
  address : IpNet
  listenPort : Option UInt16
  mtu : Option UInt16
  peers : List PeerSettings

/-- The lines of a section hold the settings of `p`, each of them once. -/
structure PeerSettings.RenderedBy (p : PeerSettings) (xs : List PeerSetting) : Prop where
  publicKey : xs.filterMap PeerSetting.asPublicKey = [p.publicKey]
  presharedKey : xs.filterMap PeerSetting.asPresharedKey = p.presharedKey.toList
  endpoint : xs.filterMap PeerSetting.asEndpoint = p.endpoint.toList
  keepalive : xs.filterMap PeerSetting.asKeepalive = p.keepalive.toList
  allowedIps : xs.flatMap PeerSetting.nets = p.allowedIps

/-- The lines of `f` hold `c`: each setting of the interface once, and a
section for each peer, in their order. -/
structure File.Renders (f : File) (c : Settings) : Prop where
  privateKey : f.interfaceSettings.filterMap InterfaceSetting.asPrivateKey = [c.privateKey]
  address : f.interfaceSettings.filterMap InterfaceSetting.asAddress = [c.address]
  listenPort : f.interfaceSettings.filterMap InterfaceSetting.asListenPort = c.listenPort.toList
  mtu : f.interfaceSettings.filterMap InterfaceSetting.asMtu = c.mtu.toList
  peers : List.Forall₂ PeerSettings.RenderedBy c.peers f.peerSettings

/-- The values are read back from their printed forms. -/
structure PeerSettings.Legible (R : Readers) (p : PeerSettings) : Prop where
  publicKey : R.keyFromBase64 (fmtKeyBase64 p.publicKey) = some p.publicKey
  presharedKey : ∀ key ∈ p.presharedKey, R.keyFromBase64 (fmtKeyBase64 key) = some key
  endpoint : ∀ addr ∈ p.endpoint, R.parseSocketAddr addr.fmt = some addr
  allowedIps : ∀ net ∈ p.allowedIps, R.parseNet net.fmt = some net

structure Settings.Legible (R : Readers) (c : Settings) : Prop where
  privateKey : R.keyFromBase64 (fmtKeyBase64 c.privateKey) = some c.privateKey
  address : R.parseNet c.address.fmt = some c.address
  peers : ∀ p ∈ c.peers, p.Legible R

/-- The result of `parse_config` that says the same. -/
def PeerSettings.parsed (p : PeerSettings) : PublicKey × Device.PeerConfig :=
  (p.publicKey, ⟨p.endpoint, p.presharedKey, p.keepalive.map fun interval =>
    .fromSecs interval.secs, p.allowedIps⟩)

def Settings.parsed (c : Settings) : ParsedConfig where
  listenAddr := listenOn (c.listenPort.getD 51820)
  privateKey := c.privateKey
  tunConfig := ⟨c.address, c.mtu.getD 1420⟩
  peers := c.peers.map PeerSettings.parsed

theorem getLast?_toList {α : Type*} (o : Option α) : o.toList.getLast? = o := by
  cases o <;> rfl

theorem InterfaceSetting.legible {xs : List InterfaceSetting} {privateKey : PrivateKey}
    {address : IpNet} (hkeys : xs.filterMap asPrivateKey = [privateKey])
    (haddresses : xs.filterMap asAddress = [address])
    (hkey : R.keyFromBase64 (fmtKeyBase64 privateKey) = some privateKey)
    (haddress : R.parseNet address.fmt = some address) : ∀ x ∈ xs, x.Legible R := by
  intro x hx
  cases x with
  | privateKey key =>
      have hmem : key ∈ xs.filterMap asPrivateKey := List.mem_filterMap.mpr ⟨_, hx, rfl⟩
      rw [hkeys, List.mem_singleton] at hmem
      subst hmem
      exact hkey
  | address net =>
      have hmem : net ∈ xs.filterMap asAddress := List.mem_filterMap.mpr ⟨_, hx, rfl⟩
      rw [haddresses, List.mem_singleton] at hmem
      subst hmem
      exact haddress
  | listenPort port => trivial
  | mtu size => trivial

theorem PeerSetting.legible {p : PeerSettings} {xs : List PeerSetting} (hxs : p.RenderedBy xs)
    (hp : p.Legible R) : ∀ x ∈ xs, x.Legible R := by
  intro x hx
  cases x with
  | publicKey key =>
      have hmem : key ∈ xs.filterMap asPublicKey := List.mem_filterMap.mpr ⟨_, hx, rfl⟩
      rw [hxs.publicKey, List.mem_singleton] at hmem
      subst hmem
      exact hp.publicKey
  | presharedKey key =>
      have hmem : key ∈ xs.filterMap asPresharedKey := List.mem_filterMap.mpr ⟨_, hx, rfl⟩
      rw [hxs.presharedKey, Option.mem_toList] at hmem
      exact hp.presharedKey key hmem
  | endpoint addr =>
      have hmem : addr ∈ xs.filterMap asEndpoint := List.mem_filterMap.mpr ⟨_, hx, rfl⟩
      rw [hxs.endpoint, Option.mem_toList] at hmem
      exact hp.endpoint addr hmem
  | allowedIps pieces =>
      intro net hnet
      refine hp.allowedIps net ?_
      rw [← hxs.allowedIps]
      exact List.mem_flatMap.mpr ⟨_, hx, hnet⟩
  | persistentKeepalive interval => trivial

theorem PeerSetting.all_legible {ps : List PeerSettings} {xss : List (List PeerSetting)}
    (h : List.Forall₂ PeerSettings.RenderedBy ps xss) (hps : ∀ p ∈ ps, p.Legible R) :
    ∀ xs ∈ xss, ∀ x ∈ xs, x.Legible R := by
  induction h with
  | nil => exact fun _ hxs => by cases hxs
  | cons hrendered _ ih =>
      obtain ⟨hp, hrest⟩ := List.forall_mem_cons.mp hps
      exact List.forall_mem_cons.mpr ⟨legible hrendered hp, ih hrest⟩

/-- The interface as the settings make it. -/
theorem interface_of_renders {f : File} {c : Settings} (h : f.Renders c) :
    f.interfaceSettings.foldl InterfaceSetting.apply .default
      = ⟨some c.privateKey, some c.address, c.listenPort.getD 51820, c.mtu⟩ := by
  have hprivate := foldl_last InterfaceSetting.apply InterfaceSection.privateKey
    InterfaceSetting.asPrivateKey (fun s x => by cases x <;> rfl) .default f.interfaceSettings
  have haddress := foldl_last InterfaceSetting.apply InterfaceSection.address
    InterfaceSetting.asAddress (fun s x => by cases x <;> rfl) .default f.interfaceSettings
  have hport := foldl_last InterfaceSetting.apply (fun s => some s.listenPort)
    InterfaceSetting.asListenPort (fun s x => by cases x <;> rfl) .default f.interfaceSettings
  have hmtu := foldl_last InterfaceSetting.apply InterfaceSection.mtu
    InterfaceSetting.asMtu (fun s x => by cases x <;> rfl) .default f.interfaceSettings
  rw [h.privateKey] at hprivate
  rw [h.address] at haddress
  rw [h.listenPort, getLast?_toList] at hport
  rw [h.mtu, getLast?_toList] at hmtu
  generalize f.interfaceSettings.foldl InterfaceSetting.apply .default = s at *
  obtain ⟨privateKey, address, listenPort, mtu⟩ := s
  have hport' : listenPort = c.listenPort.getD 51820 := by
    cases hc : c.listenPort <;> rw [hc] at hport <;> exact Option.some.inj hport
  have hmtu' : mtu = c.mtu := hmtu.trans Option.or_none
  rw [hport', hmtu', show privateKey = some c.privateKey from hprivate,
    show address = some c.address from haddress]

theorem allowedIps_foldl (xs : List PeerSetting) (p : PeerSection) :
    (xs.foldl PeerSetting.apply p).allowedIps = p.allowedIps ++ xs.flatMap PeerSetting.nets := by
  induction xs generalizing p with
  | nil => exact (List.append_nil _).symm
  | cons x rest ih =>
      rw [List.foldl_cons, ih, List.flatMap_cons, ← List.append_assoc]
      cases x with
      | allowedIps pieces => rfl
      | _ => exact congrArg (· ++ _) (List.append_nil _).symm

/-- A peer as the settings make it. -/
theorem peer_of_rendered {p : PeerSettings} {xs : List PeerSetting} (h : p.RenderedBy xs) :
    xs.foldl PeerSetting.apply .default
      = ⟨some p.publicKey, p.endpoint, p.presharedKey,
        p.keepalive.map fun interval => .fromSecs interval.secs, p.allowedIps⟩ := by
  have hpublic := foldl_last PeerSetting.apply PeerSection.publicKey
    PeerSetting.asPublicKey (fun s x => by cases x <;> rfl) .default xs
  have hendpoint := foldl_last PeerSetting.apply PeerSection.endpoint
    PeerSetting.asEndpoint (fun s x => by cases x <;> rfl) .default xs
  have hpreshared := foldl_last PeerSetting.apply PeerSection.presharedKey
    PeerSetting.asPresharedKey (fun s x => by cases x <;> rfl) .default xs
  have hkeepalive := foldl_last PeerSetting.apply PeerSection.keepalive
    (fun x => x.asKeepalive.map fun interval => .fromSecs interval.secs)
    (fun s x => by cases x <;> rfl) .default xs
  have hnets := allowedIps_foldl xs .default
  rw [h.publicKey] at hpublic
  rw [h.endpoint, getLast?_toList] at hendpoint
  rw [h.presharedKey, getLast?_toList] at hpreshared
  rw [← List.map_filterMap, h.keepalive, List.getLast?_map, getLast?_toList] at hkeepalive
  rw [h.allowedIps] at hnets
  generalize xs.foldl PeerSetting.apply .default = s at *
  obtain ⟨publicKey, endpoint, presharedKey, keepalive, allowedIps⟩ := s
  rw [show publicKey = some p.publicKey from hpublic,
    show endpoint = p.endpoint from hendpoint.trans Option.or_none,
    show presharedKey = p.presharedKey from hpreshared.trans Option.or_none,
    show keepalive = p.keepalive.map _ from hkeepalive.trans Option.or_none,
    show allowedIps = p.allowedIps from hnets]

theorem peerConfigs_of_rendered {ps : List PeerSettings} {xss : List (List PeerSetting)}
    (h : List.Forall₂ PeerSettings.RenderedBy ps xss) :
    peerConfigs (xss.map fun xs => xs.foldl PeerSetting.apply .default)
      = .ok (ps.map PeerSettings.parsed) := by
  induction h with
  | nil => rfl
  | cons hp _ ih =>
      rw [List.map_cons, peerConfigs, peer_of_rendered hp, ih]
      rfl

/-- Every section of a file that renders legible settings is legible. -/
theorem legible_of_renders {f : File} {c : Settings} (h : f.Renders c) (hc : c.Legible R) :
    ∀ x ∈ f.sections, x.Legible R := by
  intro x hx
  have hinterface := InterfaceSetting.legible h.privateKey h.address hc.privateKey hc.address
  refine ⟨fun setting hsetting => hinterface setting (List.mem_flatMap.mpr ⟨x, hx, hsetting⟩), ?_⟩
  intro settings hsettings
  have hmem : settings ∈ f.peerSettings := List.mem_filterMap.mpr ⟨x, hx, hsettings⟩
  exact PeerSetting.all_legible h.peers hc.peers settings hmem

/-! ### Main result -/

/-- **Configuration files mean what they say.**  A file that renders settings
is parsed to them, whatever blank lines, comments, white space, unknown keys
and unknown sections it has, in whatever order its keys stand and letter case
its names are.  And no text is accepted in which the interface has no private
key or no address, or some `[Peer]` no public key. -/
theorem parseConfig_faithful (R : Readers) :
    (∀ (f : File) (c : Settings), f.Renders c → c.Legible R →
      parseConfig R f.text = .ok c.parsed) ∧
    ∀ text, let ls := (lines text).map Line.read
      ¬ Given interfaceName "privatekey".toList ls ∨ ¬ Given interfaceName "address".toList ls ∨
        ¬ PeersKeyed ls → ∃ e, parseConfig R text = .error e := by
  constructor
  · intro f c h hc
    obtain ⟨hinterface, hpeers⟩ := foldl_after f.sections .start
    have hinterface' : f.state.interface
        = ⟨some c.privateKey, some c.address, c.listenPort.getD 51820, c.mtu⟩ :=
      hinterface.trans (interface_of_renders h)
    have hpeers' : f.state.peers
        = f.peerSettings.map fun xs => xs.foldl PeerSetting.apply .default := hpeers
    rw [f.parseConfig_text (legible_of_renders h hc), State.finish, hinterface', hpeers',
      peerConfigs_of_rendered h.peers]
    rfl
  · intro text ls hmissing
    cases hparse : parseConfig R text with
    | error e => exact ⟨e, rfl⟩
    | ok config =>
        obtain ⟨hprivate, haddress, hpeers⟩ := parseConfig_ok hparse
        exact absurd hmissing (not_or.mpr ⟨not_not.mpr hprivate,
          not_or.mpr ⟨not_not.mpr haddress, not_not.mpr hpeers⟩⟩)

/-! ### A file -/

namespace Home

def blank : Space := ⟨[' '], .of_all (by decide), by decide⟩

def noSpace : Space := ⟨[], .of_all rfl, List.not_mem_nil⟩

def plain : Trailer := ⟨noSpace, none⟩

def commented : Trailer := ⟨blank, some ⟨" mine".toList, by decide⟩⟩

def header (inner : Text) (h : '#' ∉ inner ∧ '\n' ∉ inner) : Header :=
  ⟨noSpace, inner, plain, h.1, h.2⟩

def key : List.Vector UInt8 32 := List.Vector.replicate 32 0

def net : IpNet := .v4 ⟨0x0a000001#32, 24⟩

def endpoint : SocketAddr := .v4 ⟨[192, 0, 2, 1], rfl⟩ 51820

/-- The interface, and a peer with its prefix on a line before its key.  A
name server and a section of another program are ignored. -/
def file : File where
  preamble := [.blank commented]
  sections := [
    .interface (header "INTERFACE".toList (by decide)) (by decide) [
      .setting (.address net) blank ⟨"Address".toList, by decide⟩ blank blank commented,
      .ignored ⟨"DNS ".toList, " 192.0.2.53".toList, by decide, by decide, by decide, by decide,
        by decide⟩,
      .setting (.privateKey key) noSpace ⟨"privateKEY".toList, by decide⟩ noSpace noSpace plain],
    .other (header "Routes".toList (by decide)) (by decide) [
      .ignored ⟨"PrivateKey".toList, "none".toList, by decide, by decide, by decide, by decide,
        by decide⟩],
    .peer (header " peer ".toList (by decide)) (by decide) [
      .setting (.allowedIps [⟨noSpace, some net, noSpace⟩, ⟨noSpace, none, noSpace⟩]) noSpace
        ⟨"AllowedIPs".toList, by decide⟩ blank blank plain,
      .setting (.publicKey key) noSpace ⟨"PublicKey".toList, by decide⟩ blank blank plain,
      .blank plain,
      .setting (.endpoint endpoint) noSpace ⟨"Endpoint".toList, by decide⟩ blank blank plain]]
  terminated := true

def settings : Settings where
  privateKey := key
  address := net
  listenPort := none
  mtu := none
  peers := [⟨key, none, some endpoint, none, [net]⟩]

/-- The values of that file are read, and nothing else. -/
def readers : Readers where
  decodeBase64 t := if t = fmtKeyBase64 key then some key.toList else none
  parseNet t := if t = net.fmt then some net else none
  parseSocketAddr t := if t = endpoint.fmt then some endpoint else none
  lookupHost _ := .error "not found"

example : file.lines = [" # mine", "[INTERFACE]", " Address = 10.0.0.1/24 # mine",
    "DNS = 192.0.2.53", "privateKEY=AAAAAAAAAAAAAAAAAAAAAAAAAAAAAAAAAAAAAAAAAAA=", "[Routes]",
    "PrivateKey=none", "[ peer ]", "AllowedIPs = 10.0.0.1/24,",
    "PublicKey = AAAAAAAAAAAAAAAAAAAAAAAAAAAAAAAAAAAAAAAAAAA=", "",
    "Endpoint = 192.0.2.1:51820"].map String.toList := by decide +kernel

end Home

/-- The file above is parsed to its settings; a file with a header only is
refused. -/
theorem parseConfig_faithful_home :
    (Home.file.Renders Home.settings ∧ Home.settings.Legible Home.readers ∧
      parseConfig Home.readers Home.file.text = .ok Home.settings.parsed) ∧
      ∃ e, parseConfig Home.readers "[Interface]".toList = .error e := by
  have hkey : Home.readers.keyFromBase64 (fmtKeyBase64 Home.key) = some Home.key := by
    decide +kernel
  have hnet : Home.readers.parseNet Home.net.fmt = some Home.net := by
    show (if Home.net.fmt = Home.net.fmt then some Home.net else none) = _
    rw [if_pos rfl]
  have hendpoint : Home.readers.parseSocketAddr Home.endpoint.fmt = some Home.endpoint := by
    show (if Home.endpoint.fmt = Home.endpoint.fmt then some Home.endpoint else none) = _
    rw [if_pos rfl]
  have hrenders : Home.file.Renders Home.settings :=
    ⟨rfl, rfl, rfl, rfl, .cons ⟨rfl, rfl, rfl, rfl, rfl⟩ .nil⟩
  have hlegible : Home.settings.Legible Home.readers := by
    refine ⟨hkey, hnet, List.forall_mem_singleton.mpr ⟨hkey, ?_, ?_, ?_⟩⟩
    · exact fun _ h => by cases h
    · exact fun addr h => Option.some.inj h ▸ hendpoint
    · exact List.forall_mem_singleton.mpr hnet
  have hmissing : ¬ Given interfaceName "privatekey".toList
      ((lines "[Interface]".toList).map Line.read) := by
    have hread : (lines "[Interface]".toList).map Line.read = [.header interfaceName] := rfl
    rintro ⟨pre, value, post, heq, -⟩
    have hmem : Line.pair "privatekey".toList value ∈ [Line.header interfaceName] := by
      rw [← hread, heq]
      exact List.mem_append_cons_self
    cases List.mem_singleton.mp hmem
  obtain ⟨hparsed, hrefused⟩ := parseConfig_faithful Home.readers
  exact ⟨⟨hrenders, hlegible, hparsed _ _ hrenders hlegible⟩, hrefused _ (Or.inl hmissing)⟩

end Config

end Tunstile
