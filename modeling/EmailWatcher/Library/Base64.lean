import EmailWatcher.Library.Octets

-- Bytes in the digits of base 64.
namespace Base64

open Octets (octet codePoint)

abbrev Sextet := Fin 64

def sextet (n : Nat) : Sextet :=
  Fin.ofNat 64 n

def sextets : Octets → List Sextet
  | a :: b :: c :: bytes =>
    sextet (a.val / 4) :: sextet (a.val % 4 * 16 + b.val / 16) :: sextet (b.val % 16 * 4 + c.val / 64) ::
      sextet (c.val % 64) :: sextets bytes
  | [a, b]               => [sextet (a.val / 4), sextet (a.val % 4 * 16 + b.val / 16), sextet (b.val % 16 * 4)]
  | [a]                  => [sextet (a.val / 4), sextet (a.val % 4 * 16)]
  | []                   => []

-- What is left over of the last digit does not count.
def octets : List Sextet → Option Octets
  | w :: x :: y :: z :: digits => (octets digits).map fun bytes =>
    octet (w.val * 4 + x.val / 16) :: octet (x.val % 16 * 16 + y.val / 4) :: octet (y.val % 4 * 64 + z.val) :: bytes
  | [w, x, y]                  => some [octet (w.val * 4 + x.val / 16), octet (x.val % 16 * 16 + y.val / 4)]
  | [w, x]                     => some [octet (w.val * 4 + x.val / 16)]
  | [_]                        => none
  | []                         => some []

theorem octet_eq {n : Nat} {a : Octet} (h : n = a.val) : octet n = a := by
  rw [h]
  exact Fin.ofNat_val_eq_self a

theorem octets_sextets (bytes : Octets) : octets (sextets bytes) = some bytes := by
  induction bytes using sextets.induct
  case case1 a b c bytes ih =>
    have ha := a.isLt
    have hb := b.isLt
    have hc := c.isLt
    simp only [sextets, octets, ih, Option.map_some]
    rw [octet_eq (a := a), octet_eq (a := b), octet_eq (a := c)] <;> simp only [sextet, Fin.ofNat] <;> omega
  case case2 a b           =>
    have ha := a.isLt
    have hb := b.isLt
    simp only [sextets, octets]
    rw [octet_eq (a := a), octet_eq (a := b)] <;> simp only [sextet, Fin.ofNat] <;> omega
  case case3 a             =>
    have ha := a.isLt
    simp only [sextets, octets]
    rw [octet_eq (a := a)]
    simp only [sextet, Fin.ofNat]
    omega
  case case4               => rfl

def pad : CodePoint :=
  '='

-- A digit, where `plus` and `slash` are the last two.
def digit (plus slash : CodePoint) (i : Sextet) : CodePoint :=
  if i.val < 26 then codePoint (i.val + 65)
  else if i.val < 52 then codePoint (i.val + 71)
  else if i.val < 62 then codePoint (i.val - 4)
  else if i.val = 62 then plus
  else slash

def value (plus slash : CodePoint) (c : CodePoint) : Option Sextet :=
  if 65 ≤ c.val ∧ c.val ≤ 90 then some (sextet (c.val - 65))
  else if 97 ≤ c.val ∧ c.val ≤ 122 then some (sextet (c.val - 71))
  else if 48 ≤ c.val ∧ c.val ≤ 57 then some (sextet (c.val + 4))
  else if c = plus then some 62
  else if c = slash then some 63
  else none

def padding (bytes : Octets) : Text :=
  List.replicate ((3 - bytes.length % 3) % 3) pad

-- `base64.b64encode(value, altchars)`
def encode (plus slash : CodePoint) (bytes : Octets) : Text :=
  (sextets bytes).map (digit plus slash) ++ padding bytes

-- `value.rstrip(b"=")`
def rstrip (text : Text) : Text :=
  text.rdropWhile (· = pad)

variable {plus slash : CodePoint} {text : Text}

theorem rstrip_append (h : pad ∉ text) (n : Nat) : rstrip (text ++ List.replicate n pad) = text := by
  rw [rstrip, List.rdropWhile, List.reverse_append, List.reverse_replicate,
    List.dropWhile_append_of_pos (by simp)]
  cases hrev : text.reverse
  case nil         => rw [← text.reverse_reverse, hrev]; rfl
  case cons c cs =>
    have hc : c ≠ pad := by
      rintro rfl
      exact h (List.mem_reverse.mp (hrev ▸ List.mem_cons_self))
    rw [List.dropWhile_cons_of_neg (by simpa using hc), ← hrev, List.reverse_reverse]

section Decoder

def plusSign : CodePoint :=
  '+'

def slashSign : CodePoint :=
  '/'

-- The last two digits of `urlsafe_b64encode`.
def hyphen : CodePoint :=
  '-'

def underscore : CodePoint :=
  '_'

-- `binascii.a2b_base64(text, strict_mode=True)`, as it is documented: digits, and behind them as much padding as
-- they need. Padding in excess is refused.
def a2bBase64 (text : Text) : Option Octets :=
  let digits := text.takeWhile (· ≠ pad)
  if text.drop digits.length = List.replicate ((4 - digits.length % 4) % 4) pad then
    (digits.mapM (value plusSign slashSign)).bind octets
  else none

-- `text.translate(bytes.maketrans(altchars, b"+/"))`
def translate (plus slash c : CodePoint) : CodePoint :=
  if c = plus then plusSign else if c = slash then slashSign else c

-- `base64.b64decode(text, altchars, validate=True)`
def b64decode (plus slash : CodePoint) (text : Text) : Option Octets :=
  a2bBase64 (text.map (translate plus slash))

variable {plus slash : CodePoint} {bytes : Octets}

theorem length_sextets (bytes : Octets) : (sextets bytes).length = (4 * bytes.length + 2) / 3 := by
  induction bytes using sextets.induct
  case case1 a b c bytes ih =>
    simp only [sextets, List.length_cons, ih]
    omega
  case case2 => simp [sextets]
  case case3 => simp [sextets]
  case case4 => rfl

-- The last two digits are not taken for others.
structure Apart (plus slash : CodePoint) : Prop where
  pad   : translate plus slash pad = pad
  digit : ∀ i, digit plus slash i ≠ Base64.pad
  value : ∀ i, value plusSign slashSign (translate plus slash (Base64.digit plus slash i)) = some i

theorem apart_urlsafe : Apart hyphen underscore where
  pad   := by decide
  digit := by decide
  value := by decide

theorem rstrip_encode (h : ∀ i, digit plus slash i ≠ pad) (bytes : Octets) :
    rstrip (encode plus slash bytes) = (sextets bytes).map (digit plus slash) := by
  refine rstrip_append ?_ _
  intro hm
  obtain ⟨i, -, hi⟩ := List.mem_map.mp hm
  exact h i hi

theorem mapM_eq_some {α β : Type} {f : α → Option β} {g : β → α} (h : ∀ b, f (g b) = some b) (l : List β) :
    (l.map g).mapM f = some l := by
  induction l
  case nil          => rfl
  case cons b l ih => simp [List.mapM_cons, h, ih]

theorem takeWhile_append_replicate {text : Text} (h : pad ∉ text) (n : Nat) :
    (text ++ List.replicate n pad).takeWhile (· ≠ pad) = text := by
  rw [List.takeWhile_append_of_pos]
  · cases n <;> simp [List.replicate_succ]
  · intro c hc
    simp only [decide_eq_true_eq]
    rintro rfl
    exact h hc

-- Bytes are read as they were written, whether or not the padding has been taken off and put back.
theorem b64decode_encode (h : Apart plus slash) (bytes : Octets) :
    b64decode plus slash (rstrip (encode plus slash bytes) ++
      List.replicate ((4 - (rstrip (encode plus slash bytes)).length % 4) % 4) pad) = some bytes := by
  have hwire : pad ∉ (sextets bytes).map fun i => translate plus slash (digit plus slash i) := by
    intro hm
    obtain ⟨i, -, hi⟩ := List.mem_map.mp hm
    have hv := h.value i
    rw [hi] at hv
    cases hv
  rw [rstrip_encode h.digit, b64decode, List.map_append, List.map_map, List.map_replicate, h.pad,
    List.length_map, a2bBase64]
  simp only [Function.comp_def, takeWhile_append_replicate hwire, List.length_map]
  rw [List.drop_left' (by rw [List.length_map]), if_pos rfl, mapM_eq_some h.value, Option.bind_some, octets_sextets]

theorem encode_eq (h : Apart plus slash) (bytes : Octets) :
    rstrip (encode plus slash bytes) ++
      List.replicate ((4 - (rstrip (encode plus slash bytes)).length % 4) % 4) pad = encode plus slash bytes := by
  rw [rstrip_encode h.digit, List.length_map, length_sextets, encode, padding]
  congr 2
  have hr : bytes.length % 3 = 0 ∨ bytes.length % 3 = 1 ∨ bytes.length % 3 = 2 := by omega
  have hlen : (4 * bytes.length + 2) / 3 = 4 * (bytes.length / 3) + (4 * (bytes.length % 3) + 2) / 3 := by omega
  rw [hlen]
  obtain h | h | h := hr <;> rw [h] <;> omega

end Decoder

end Base64
