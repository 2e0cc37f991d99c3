/-
Tunstile/Display.lean

The printed forms of keys, prefixes and socket addresses.

Keys are printed in base64 (`protocol/src/keys.rs`); prefixes and socket
addresses as the `ipnet` crate and the standard library print them, with the
longest run of zeroes in an IPv6 address left out.

All that a reader of lines needs to know of them is that they are `Plain`:
every character is visible, and none of them starts a comment or separates
two values.
-/
import Tunstile.Text
import Tunstile.Basic
import Tunstile.AllowedIps

namespace Tunstile

open Text

/-! ### Plain texts -/

/-- A visible ASCII character other than `#` and `,`. -/
def isPlain (c : Char) : Bool :=
  decide (33 ≤ c.toNat ∧ c.toNat ≤ 126 ∧ c ≠ '#' ∧ c ≠ ',')

def Plain (t : Text) : Prop := ∀ c ∈ t, isPlain c = true

namespace Plain

variable {s t : Text} {c : Char}

theorem of_all (h : t.all isPlain = true) : Plain t := List.all_eq_true.mp h

theorem nil : Plain [] := of_all rfl

theorem cons (hc : isPlain c = true) (ht : Plain t) : Plain (c :: t) :=
  List.forall_mem_cons.mpr ⟨hc, ht⟩

theorem append (hs : Plain s) (ht : Plain t) : Plain (s ++ t) :=
  List.forall_mem_append.mpr ⟨hs, ht⟩

theorem intercalate {sep : Text} (hsep : Plain sep) :
    ∀ {pieces : List Text}, (∀ p ∈ pieces, Plain p) → Plain (sep.intercalate pieces)
  | [], _ => by rw [List.intercalate_nil]; exact nil
  | [p], h => by rw [List.intercalate_singleton]; exact h p List.mem_cons_self
  | p :: q :: rest, h => by
      rw [List.intercalate_cons_cons]
      have hrest := intercalate hsep fun r (hr : r ∈ q :: rest) => h r (List.mem_cons_of_mem _ hr)
      exact ((h p List.mem_cons_self).append hsep).append hrest

theorem solid (h : Plain t) : Solid t := by
  intro c hc
  obtain ⟨hlow, hhigh, -⟩ := of_decide_eq_true (h c hc)
  rw [isSpace, decide_eq_false_iff_not]
  omega

theorem not_mem (h : Plain t) (hc : isPlain c = false) : c ∉ t := fun hmem =>
  Bool.eq_false_iff.mp hc (h c hmem)

end Plain

theorem isPlain_digitChar (n : ℕ) : isPlain n.digitChar = true := by
  by_cases hn : n < 16
  · have hall : ∀ m : Fin 16, isPlain (m : ℕ).digitChar = true := by decide
    exact hall ⟨n, hn⟩
  · rw [Nat.digitChar_eq_star.mpr (not_lt.mp hn)]
    decide

theorem plain_toDigits {b : ℕ} (hb : 1 < b) (n : ℕ) : Plain (Nat.toDigits b n) := by
  induction n using Nat.strong_induction_on with
  | h n ih =>
      rw [Nat.toDigits_eq_if hb]
      split
      · exact .cons (isPlain_digitChar n) .nil
      · have hlt : n / b < n := Nat.div_lt_self (by omega) hb
        exact (ih (n / b) hlt).append (.cons (isPlain_digitChar _) .nil)

/-! ### Keys -/

def base64Alphabet : Text :=
  "ABCDEFGHIJKLMNOPQRSTUVWXYZabcdefghijklmnopqrstuvwxyz0123456789+/".toList

/-- The character of the lowest six bits. -/
def base64Char (n : ℕ) : Char := base64Alphabet.getD (n % 64) 'A'

/-- `BASE64_STANDARD`: four characters for three bytes, padded at the end. -/
def encodeBase64 : Bytes → Text
  | [] => []
  | [a] => [base64Char (a.toNat / 4), base64Char (a.toNat * 16), '=', '=']
  | [a, b] =>
      let n := a.toNat * 256 + b.toNat
      [base64Char (n / 1024), base64Char (n / 16), base64Char (n * 4), '=']
  | a :: b :: c :: rest =>
      let n := a.toNat * 65536 + b.toNat * 256 + c.toNat
      base64Char (n / 262144) :: base64Char (n / 4096) :: base64Char (n / 64) :: base64Char n ::
        encodeBase64 rest

/-- `fmt_key_base64`. -/
def fmtKeyBase64 (key : List.Vector UInt8 32) : Text := encodeBase64 key.toList

theorem isPlain_base64Char (n : ℕ) : isPlain (base64Char n) = true := by
  have hall : ∀ m : Fin 64, isPlain (base64Alphabet.getD m 'A') = true := by decide +kernel
  exact hall ⟨n % 64, Nat.mod_lt _ (by decide)⟩

theorem plain_encodeBase64 (bytes : Bytes) : Plain (encodeBase64 bytes) := by
  have hpad : isPlain '=' = true := by decide
  fun_induction encodeBase64 bytes with
  | case1 => exact .nil
  | case2 a =>
      exact .cons (isPlain_base64Char _) (.cons (isPlain_base64Char _)
        (.cons hpad (.cons hpad .nil)))
  | case3 a b n =>
      exact .cons (isPlain_base64Char _) (.cons (isPlain_base64Char _)
        (.cons (isPlain_base64Char _) (.cons hpad .nil)))
  | case4 a b c rest n ih =>
      exact .cons (isPlain_base64Char _) (.cons (isPlain_base64Char _)
        (.cons (isPlain_base64Char _) (.cons (isPlain_base64Char _) ih)))

theorem plain_fmtKeyBase64 (key : List.Vector UInt8 32) : Plain (fmtKeyBase64 key) :=
  plain_encodeBase64 _

/-! ### Addresses -/

/-- The `count` lowest digits of `n`, the highest first. -/
def beDigits (base count n : ℕ) : List ℕ :=
  (List.range count).reverse.map fun i => n / base ^ i % base

/-- `Ipv4Addr`: its octets. -/
def fmtIpv4 (octets : List ℕ) : Text := ['.'].intercalate (octets.map (Nat.toDigits 10))

/-- A run of segments that are zero. -/
structure ZeroRun where
  start : ℕ
  len : ℕ

/-- The first of the longest runs of zeroes, and the run that reaches to the
end. -/
def zeroes (segments : List ℕ) : ZeroRun × ZeroRun :=
  segments.zipIdx.foldl (fun (longest, current) (segment, i) =>
    if segment = 0 then
      let current : ZeroRun := ⟨if current.len = 0 then i else current.start, current.len + 1⟩
      (if longest.len < current.len then current else longest, current)
    else (longest, ⟨0, 0⟩)) (⟨0, 0⟩, ⟨0, 0⟩)

/-- Segments with colons between them. -/
def fmtSubslice (chunk : List ℕ) : Text := [':'].intercalate (chunk.map (Nat.toDigits 16))

/-- `Ipv6Addr`: its segments. -/
def fmtIpv6 (segments : List ℕ) : Text :=
  -- an IPv4 address that is mapped is printed as such
  if segments.take 6 = [0, 0, 0, 0, 0, 0xffff] then
    "::ffff:".toList ++ fmtIpv4 ((segments.drop 6).flatMap fun s => [s / 256, s % 256])
  else
    let longest := (zeroes segments).1
    if 1 < longest.len then
      fmtSubslice (segments.take longest.start) ++ "::".toList ++
        fmtSubslice (segments.drop (longest.start + longest.len))
    else fmtSubslice segments

def IpNet.fmt : IpNet → Text
  | .v4 net => fmtIpv4 (beDigits 256 4 net.addr.toNat) ++ '/' :: Nat.toDigits 10 net.len
  | .v6 net => fmtIpv6 (beDigits 65536 8 net.addr.toNat) ++ '/' :: Nat.toDigits 10 net.len

/-- The flow information is not printed. -/
def SocketAddr.fmt : SocketAddr → Text
  | .v4 octets port =>
      fmtIpv4 (octets.toList.map UInt8.toNat) ++ ':' :: Nat.toDigits 10 port.toNat
  | .v6 octets port _ scopeId =>
      let scope := if scopeId = 0 then [] else '%' :: Nat.toDigits 10 scopeId.toNat
      '[' :: fmtIpv6 (beDigits 65536 8 (fromBeOctets octets.toList)) ++ scope ++
        ']' :: ':' :: Nat.toDigits 10 port.toNat

theorem plain_separated {b : ℕ} (hb : 1 < b) {sep : Char} (hsep : isPlain sep = true)
    (numbers : List ℕ) : Plain ([sep].intercalate (numbers.map (Nat.toDigits b))) := by
  refine .intercalate (.cons hsep .nil) fun p hp => ?_
  obtain ⟨n, -, rfl⟩ := List.mem_map.mp hp
  exact plain_toDigits hb n

theorem plain_fmtIpv4 (octets : List ℕ) : Plain (fmtIpv4 octets) :=
  plain_separated (by decide) (by decide) octets

theorem plain_fmtIpv6 (segments : List ℕ) : Plain (fmtIpv6 segments) := by
  have hchunk (chunk : List ℕ) : Plain (fmtSubslice chunk) :=
    plain_separated (by decide) (by decide) chunk
  unfold fmtIpv6
  split
  · have hmapped : Plain "::ffff:".toList := .of_all (by decide)
    exact hmapped.append (plain_fmtIpv4 _)
  · dsimp only
    split
    · have hgap : Plain "::".toList := .of_all (by decide)
      exact ((hchunk _).append hgap).append (hchunk _)
    · exact hchunk _

theorem IpNet.plain_fmt (net : IpNet) : Plain net.fmt := by
  cases net with
  | v4 net => exact (plain_fmtIpv4 _).append (.cons (by decide) (plain_toDigits (by decide) _))
  | v6 net => exact (plain_fmtIpv6 _).append (.cons (by decide) (plain_toDigits (by decide) _))

theorem IpNet.fmt_ne_nil (net : IpNet) : net.fmt ≠ [] := by
  cases net <;> exact List.append_ne_nil_of_right_ne_nil _ (List.cons_ne_nil _ _)

theorem SocketAddr.plain_fmt (addr : SocketAddr) : Plain addr.fmt := by
  cases addr with
  | v4 octets port =>
      exact (plain_fmtIpv4 _).append (.cons (by decide) (plain_toDigits (by decide) _))
  | v6 octets port flowinfo scopeId =>
      have hscope : Plain (if scopeId = 0 then [] else '%' :: Nat.toDigits 10 scopeId.toNat) := by
        split
        · exact .nil
        · exact .cons (by decide) (plain_toDigits (by decide) _)
      exact ((Plain.cons (by decide) (plain_fmtIpv6 _)).append hscope).append
        (.cons (by decide) (.cons (by decide) (plain_toDigits (by decide) _)))

end Tunstile
