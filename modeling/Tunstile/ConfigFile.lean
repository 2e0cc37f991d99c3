/-
Tunstile/ConfigFile.lean

Configuration files, with all that may be put into them.

A `File` has sections, and a section has lines.  Beside its settings a section
may have blank lines, comments, and keys that mean nothing in it; there may be
sections that mean nothing; names may be in any letter case; and white space
may stand around every part of a line.  Each such part is a type whose values
cannot be mistaken for something else, so that `File.text` needs no further
conditions.

To the parser a header says its name (`Header.read_text`), a setting its key
and its printed value (`BodyLine.read_setting`), and a blank line nothing.
-/
import Tunstile.Config
import Tunstile.Display

namespace Tunstile

open Text

namespace Config

/-! ### Parts of a line -/

/-- White space within a line. -/
structure Space where
  text : Text
  blank : Blank text
  oneLine : '\n' ∉ text

/-- The rest of a line: white space, and perhaps a comment. -/
structure Trailer where
  space : Space
  comment : Option {t : Text // '\n' ∉ t}

def Trailer.text (e : Trailer) : Text :=
  e.space.text ++ (e.comment.elim [] fun c => '#' :: c.1)

/-- A word in any letter case. -/
structure Spelling (word : Text) where
  text : Text
  spells : toAsciiLowercase text = word

/-- A key that is not one of `words`, with anything as its value. -/
structure Ignored (words : List Text) where
  key : Text
  value : Text
  noEquals : '=' ∉ key
  noComment : '#' ∉ key
  noHeader : (key.dropWhile isSpace).head? ≠ some '['
  unknown : toAsciiLowercase (trim key) ∉ words
  oneLine : '\n' ∉ key ∧ '\n' ∉ value

theorem Space.not_mem (s : Space) {c : Char} (hc : isSpace c = false) : c ∉ s.text := fun h =>
  Bool.eq_false_iff.mp hc (s.blank c h)

theorem Spelling.isAlpha {word : Text} (name : Spelling word)
    (hword : ∀ c ∈ word, c.isLower = true) : ∀ c ∈ name.text, c.isAlpha = true :=
  isAlpha_of_spells hword name.spells

theorem Trailer.before_text (e : Trailer) : before '#' e.text = e.space.text := by
  have hspace : '#' ∉ e.space.text := e.space.not_mem (by decide)
  unfold Trailer.text
  cases e.comment with
  | none =>
      show before '#' (e.space.text ++ []) = _
      rw [List.append_nil, before_of_not_mem hspace]
  | some c =>
      show before '#' (e.space.text ++ '#' :: c.1) = _
      rw [before_append hspace, before_cons_self, List.append_nil]

theorem Trailer.oneLine (e : Trailer) : '\n' ∉ e.text := by
  unfold Trailer.text
  cases e.comment with
  | none =>
      show '\n' ∉ e.space.text ++ []
      rw [List.append_nil]
      exact e.space.oneLine
  | some c =>
      show '\n' ∉ e.space.text ++ '#' :: c.1
      rw [List.mem_append, List.mem_cons]
      rintro (h | h | h)
      · exact e.space.oneLine h
      · exact absurd h (by decide)
      · exact c.2 h

/-! ### What the parser reads -/

theorem read_blank (e : Trailer) : Line.read e.text = .blank := by
  unfold Line.read
  dsimp only
  rw [e.before_text, e.space.blank.trim, if_pos rfl]

theorem read_header (front : Space) {inner : Text} (hinner : '#' ∉ inner) (e : Trailer) :
    Line.read (front.text ++ '[' :: (inner ++ ']' :: e.text))
      = .header (toAsciiLowercase (trim inner)) := by
  have hcut : before '#' (front.text ++ '[' :: (inner ++ ']' :: e.text))
      = front.text ++ '[' :: (inner ++ ']' :: e.space.text) := by
    have hbefore : '#' ∉ front.text ++ '[' :: (inner ++ [']']) := by
      rw [List.mem_append, List.mem_cons, List.mem_append, List.mem_singleton]
      rintro (h | h | h | h)
      · exact front.not_mem (by decide) h
      · exact absurd h (by decide)
      · exact hinner h
      · exact absurd h (by decide)
    have happend := before_append (t := e.text) hbefore
    rw [e.before_text] at happend
    simpa only [List.append_assoc, List.cons_append, List.nil_append] using happend
  have htrim : trim (front.text ++ '[' :: (inner ++ ']' :: e.space.text))
      = '[' :: (inner ++ [']']) := by
    rw [trim_append_cons (by decide), rdropWhile_append_cons (by decide), front.blank.dropWhile]
    have hnil : e.space.text.rdropWhile isSpace = [] := List.rdropWhile_eq_nil_iff.mpr e.space.blank
    rw [hnil]
    rfl
  unfold Line.read
  dsimp only
  rw [hcut, htrim, if_neg (List.cons_ne_nil _ _), stripPrefix_cons, Option.bind_some,
    stripSuffix_concat]

theorem read_pair {key : Text} (hequals : '=' ∉ key) (hcomment : '#' ∉ key)
    (hheader : (key.dropWhile isSpace).head? ≠ some '[') (value : Text) :
    Line.read (key ++ '=' :: value)
      = .pair (toAsciiLowercase (trim key)) (trim (before '#' value)) := by
  have hcut : before '#' (key ++ '=' :: value) = key ++ '=' :: before '#' value := by
    have hcons : before '#' ('=' :: value) = '=' :: before '#' value :=
      List.takeWhile_cons_of_pos (by decide)
    rw [before_append hcomment, hcons]
  have hequals' : '=' ∉ key.dropWhile isSpace := fun h =>
    hequals ((List.dropWhile_suffix _).subset h)
  have hhead : (key.dropWhile isSpace ++ '=' :: (before '#' value).rdropWhile isSpace).head?
      ≠ some '[' := by
    cases hkey : key.dropWhile isSpace with
    | nil => exact fun h => absurd (Option.some.inj h) (by decide)
    | cons x rest =>
        rw [hkey] at hheader
        exact hheader
  unfold Line.read
  dsimp only
  rw [hcut, trim_append_cons (by decide), if_neg (List.append_ne_nil_of_right_ne_nil _
    (List.cons_ne_nil _ _)), stripPrefix_of_head hhead, Option.bind_none,
    splitOnce_append_cons hequals']
  dsimp only
  rw [trim_dropWhile, trim_rdropWhile]

/-! ### Lines of a section -/

/-- The keys that have a meaning in one kind of section. -/
structure Vocabulary where
  Setting : Type
  word : Setting → Text
  value : Setting → Text
  words : List Text
  lower : ∀ x, ∀ c ∈ word x, c.isLower = true
  noComment : ∀ x, '#' ∉ value x
  oneLine : ∀ x, '\n' ∉ value x

inductive BodyLine (V : Vocabulary) where
  /-- A blank line, or a comment. -/
  | blank (trailer : Trailer)
  | setting (x : V.Setting) (front : Space) (name : Spelling (V.word x)) (back : Space)
      (gap : Space) (trailer : Trailer)
  | ignored (line : Ignored V.words)

namespace BodyLine

variable {V : Vocabulary}

def text : BodyLine V → Text
  | blank trailer => trailer.text
  | setting x front name back gap trailer =>
      front.text ++ name.text ++ back.text ++ '=' :: (gap.text ++ V.value x ++ trailer.text)
  | ignored line => line.key ++ '=' :: line.value

def settings : BodyLine V → List V.Setting
  | setting x _ _ _ _ _ => [x]
  | _ => []

/-- A key has letters and white space only. -/
theorem not_mem_key {x : V.Setting} (front : Space) (name : Spelling (V.word x)) (back : Space)
    {c : Char} (hspace : isSpace c = false) (halpha : c.isAlpha = false) :
    c ∉ front.text ++ name.text ++ back.text := by
  rw [List.mem_append, List.mem_append]
  rintro ((h | h) | h)
  · exact front.not_mem hspace h
  · exact Bool.eq_false_iff.mp halpha (name.isAlpha (V.lower x) c h)
  · exact back.not_mem hspace h

theorem read_setting (x : V.Setting) (front : Space) (name : Spelling (V.word x)) (back gap : Space)
    (trailer : Trailer) :
    Line.read (setting x front name back gap trailer).text
      = .pair (V.word x) (trim (V.value x)) := by
  have hkey : trim (front.text ++ name.text ++ back.text) = name.text := by
    refine trim_surrounded front.blank (fun c hc => ?_) back.blank
    exact isSpace_of_isAlpha (name.isAlpha (V.lower x) c hc)
  have hvalue : before '#' (gap.text ++ V.value x ++ trailer.text)
      = gap.text ++ V.value x ++ trailer.space.text := by
    have hbefore : '#' ∉ gap.text ++ V.value x := by
      rw [List.mem_append]
      exact not_or.mpr ⟨gap.not_mem (by decide), V.noComment x⟩
    rw [before_append hbefore, trailer.before_text]
  have hheader : ((front.text ++ name.text ++ back.text).dropWhile isSpace).head? ≠ some '[' := by
    intro h
    exact not_mem_key front name back (c := '[') (by decide) (by decide)
      ((List.dropWhile_suffix _).subset (List.mem_of_mem_head? h))
  show Line.read (front.text ++ name.text ++ back.text ++ '=' ::
    (gap.text ++ V.value x ++ trailer.text)) = _
  rw [read_pair (not_mem_key front name back (by decide) (by decide))
    (not_mem_key front name back (by decide) (by decide)) hheader, hkey, name.spells, hvalue,
    trim_append_blank trailer.space.blank, trim_blank_append gap.blank]

theorem read_ignored (line : Ignored V.words) :
    Line.read (ignored line : BodyLine V).text
      = .pair (toAsciiLowercase (trim line.key)) (trim (before '#' line.value)) :=
  read_pair line.noEquals line.noComment line.noHeader line.value

theorem oneLine (l : BodyLine V) : '\n' ∉ l.text := by
  cases l with
  | blank trailer => exact trailer.oneLine
  | setting x front name back gap trailer =>
      have hletters : '\n' ∉ name.text := fun h =>
        absurd (name.isAlpha (V.lower x) _ h) (by decide)
      show '\n' ∉ front.text ++ name.text ++ back.text ++ '=' ::
        (gap.text ++ V.value x ++ trailer.text)
      simp only [List.mem_append, List.mem_cons, not_or]
      exact ⟨⟨⟨front.oneLine, hletters⟩, back.oneLine⟩, by decide,
        ⟨gap.oneLine, V.oneLine x⟩, trailer.oneLine⟩
  | ignored line =>
      show '\n' ∉ line.key ++ '=' :: line.value
      simp only [List.mem_append, List.mem_cons, not_or]
      exact ⟨line.oneLine.1, by decide, line.oneLine.2⟩

end BodyLine

/-! ### Settings -/

/-- A setting of the interface. -/
inductive InterfaceSetting where
  | privateKey (key : PrivateKey)
  | address (net : IpNet)
  | listenPort (port : UInt16)
  | mtu (size : UInt16)

namespace InterfaceSetting

def word : InterfaceSetting → Text
  | privateKey _ => "privatekey".toList
  | address _ => "address".toList
  | listenPort _ => "listenport".toList
  | mtu _ => "mtu".toList

def value : InterfaceSetting → Text
  | privateKey key => fmtKeyBase64 key
  | address net => net.fmt
  | listenPort port => Nat.toDigits 10 port.toNat
  | mtu size => Nat.toDigits 10 size.toNat

theorem plain_value (x : InterfaceSetting) : Plain x.value := by
  cases x with
  | privateKey key => exact plain_fmtKeyBase64 key
  | address net => exact net.plain_fmt
  | listenPort port => exact plain_toDigits (by decide) _
  | mtu size => exact plain_toDigits (by decide) _

end InterfaceSetting

/-- A keepalive interval in seconds, as the parser accepts it. -/
structure Keepalive where
  secs : ℕ
  pos : 1 ≤ secs
  le : secs ≤ 65534

/-- What stands between two commas: a prefix or nothing. -/
structure Piece where
  front : Space
  net : Option IpNet
  back : Space

def Piece.shown (p : Piece) : Text := p.net.elim [] IpNet.fmt

def Piece.text (p : Piece) : Text := p.front.text ++ p.shown ++ p.back.text

theorem Piece.plain_shown (p : Piece) : Plain p.shown := by
  unfold Piece.shown
  cases p.net with
  | none => exact .nil
  | some net => exact net.plain_fmt

theorem Piece.not_mem (p : Piece) {c : Char} (hspace : c ∉ p.front.text ∧ c ∉ p.back.text)
    (hplain : isPlain c = false) : c ∉ p.text := by
  unfold Piece.text
  simp only [List.mem_append, not_or]
  exact ⟨⟨hspace.1, p.plain_shown.not_mem hplain⟩, hspace.2⟩

/-- A setting of a peer; one of several lines may hold its prefixes. -/
inductive PeerSetting where
  | publicKey (key : PublicKey)
  | presharedKey (key : PresharedKey)
  | endpoint (addr : SocketAddr)
  | allowedIps (pieces : List Piece)
  | persistentKeepalive (interval : Keepalive)

/-- A separator that a text may not have between pieces, nor in them. -/
theorem not_mem_intercalate {α : Type*} {c sep : α} (hsep : c ≠ sep) :
    ∀ {pieces : List (List α)}, (∀ p ∈ pieces, c ∉ p) → c ∉ [sep].intercalate pieces
  | [], _ => by rw [List.intercalate_nil]; exact List.not_mem_nil
  | [p], h => by rw [List.intercalate_singleton]; exact h p List.mem_cons_self
  | p :: q :: rest, h => by
      rw [List.intercalate_cons_cons, List.mem_append, List.mem_append, List.mem_singleton]
      have hrest := not_mem_intercalate hsep fun r (hr : r ∈ q :: rest) =>
        h r (List.mem_cons_of_mem _ hr)
      rintro ((hp | hc) | hr)
      · exact h p List.mem_cons_self hp
      · exact hsep hc
      · exact hrest hr

namespace PeerSetting

def word : PeerSetting → Text
  | publicKey _ => "publickey".toList
  | presharedKey _ => "presharedkey".toList
  | endpoint _ => "endpoint".toList
  | allowedIps _ => "allowedips".toList
  | persistentKeepalive _ => "persistentkeepalive".toList

def value : PeerSetting → Text
  | publicKey key => fmtKeyBase64 key
  | presharedKey key => fmtKeyBase64 key
  | endpoint addr => addr.fmt
  | allowedIps pieces => [','].intercalate (pieces.map Piece.text)
  | persistentKeepalive interval => Nat.toDigits 10 interval.secs

theorem not_mem_value {c : Char} (hplain : isPlain c = false) (hcomma : c ≠ ',')
    (hspace : ∀ s : Space, c ∉ s.text) (x : PeerSetting) : c ∉ x.value := by
  cases x with
  | publicKey key => exact (plain_fmtKeyBase64 key).not_mem hplain
  | presharedKey key => exact (plain_fmtKeyBase64 key).not_mem hplain
  | endpoint addr => exact addr.plain_fmt.not_mem hplain
  | allowedIps pieces =>
      refine not_mem_intercalate hcomma fun t ht => ?_
      obtain ⟨p, -, rfl⟩ := List.mem_map.mp ht
      exact p.not_mem ⟨hspace _, hspace _⟩ hplain
  | persistentKeepalive interval => exact (plain_toDigits (by decide) _).not_mem hplain

end PeerSetting

namespace Vocabulary

def interface : Vocabulary where
  Setting := InterfaceSetting
  word := InterfaceSetting.word
  value := InterfaceSetting.value
  words := ["privatekey", "address", "listenport", "mtu"].map String.toList
  lower x := by
    cases x <;> dsimp only [InterfaceSetting.word] <;> exact List.all_eq_true.mp (by decide)
  noComment x := x.plain_value.not_mem (by decide)
  oneLine x := x.plain_value.not_mem (by decide)

def peer : Vocabulary where
  Setting := PeerSetting
  word := PeerSetting.word
  value := PeerSetting.value
  words := ["publickey", "presharedkey", "endpoint", "allowedips", "persistentkeepalive"].map
    String.toList
  lower x := by
    cases x <;> dsimp only [PeerSetting.word] <;> exact List.all_eq_true.mp (by decide)
  noComment x := x.not_mem_value (by decide) (by decide) fun s => s.not_mem (by decide)
  oneLine x := x.not_mem_value (by decide) (by decide) Space.oneLine

/-- Where every key is ignored. -/
def other : Vocabulary where
  Setting := Empty
  word x := x.elim
  value x := x.elim
  words := []
  lower x := x.elim
  noComment x := x.elim
  oneLine x := x.elim

end Vocabulary

/-! ### Files -/

/-- A header; `inner` stands between its brackets. -/
structure Header where
  front : Space
  inner : Text
  trailer : Trailer
  noComment : '#' ∉ inner
  oneLine : '\n' ∉ inner

namespace Header

def text (h : Header) : Text := h.front.text ++ '[' :: (h.inner ++ ']' :: h.trailer.text)

/-- Its name, in small letters and without the white space around it. -/
def name (h : Header) : Text := toAsciiLowercase (trim h.inner)

theorem read_text (h : Header) : Line.read h.text = .header h.name :=
  read_header h.front h.noComment h.trailer

theorem text_oneLine (h : Header) : '\n' ∉ h.text := by
  unfold text
  simp only [List.mem_append, List.mem_cons, not_or]
  exact ⟨h.front.oneLine, by decide, h.oneLine, by decide, h.trailer.oneLine⟩

end Header

inductive Section where
  | interface (header : Header) (named : header.name = interfaceName)
      (body : List (BodyLine .interface))
  | peer (header : Header) (named : header.name = peerName) (body : List (BodyLine .peer))
  | other (header : Header) (named : header.name ≠ interfaceName ∧ header.name ≠ peerName)
      (body : List (BodyLine .other))

def Section.lines : Section → List Text
  | interface header _ body => header.text :: body.map BodyLine.text
  | peer header _ body => header.text :: body.map BodyLine.text
  | other header _ body => header.text :: body.map BodyLine.text

/-- The settings of the interface in a section. -/
def Section.interfaceSettings : Section → List InterfaceSetting
  | interface _ _ body => body.flatMap BodyLine.settings
  | _ => []

/-- The settings of the peer that a section is about. -/
def Section.peerSettings : Section → Option (List PeerSetting)
  | peer _ _ body => some (body.flatMap BodyLine.settings)
  | _ => none

structure File where
  /-- What stands before the first header. -/
  preamble : List (BodyLine .other)
  sections : List Section
  /-- Whether the last line ends with a line break. -/
  terminated : Bool

namespace File

def lines (f : File) : List Text :=
  f.preamble.map BodyLine.text ++ f.sections.flatMap Section.lines

def text (f : File) : Text :=
  ['\n'].intercalate (f.lines ++ if f.terminated then [[]] else [])

def interfaceSettings (f : File) : List InterfaceSetting :=
  f.sections.flatMap Section.interfaceSettings

/-- The settings of each peer, in the order of their headers. -/
def peerSettings (f : File) : List (List PeerSetting) := f.sections.filterMap Section.peerSettings

theorem oneLine (f : File) : ∀ l ∈ f.lines, '\n' ∉ l := by
  have hbody {V : Vocabulary} (body : List (BodyLine V)) :
      ∀ l ∈ body.map BodyLine.text, '\n' ∉ l := by
    intro l hl
    obtain ⟨b, -, rfl⟩ := List.mem_map.mp hl
    exact b.oneLine
  have hsection (s : Section) : ∀ l ∈ s.lines, '\n' ∉ l := by
    cases s <;> exact List.forall_mem_cons.mpr ⟨Header.text_oneLine _, hbody _⟩
  intro l hl
  rcases List.mem_append.mp hl with hl | hl
  · exact hbody _ l hl
  · obtain ⟨s, -, hs⟩ := List.mem_flatMap.mp hl
    exact hsection s l hs

end File

end Config

end Tunstile
