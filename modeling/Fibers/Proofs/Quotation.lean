import Mathlib
import Fibers.Text.Quoted

/-! Quoted texts, read back.

A quoted text is read from the left, one character after the other, and nothing in it can be taken
for anything else: reading a quoted text gives the text, and leaves what stands behind the closing
quote, whatever that is (`unquote?_quoteChars`). A character stands in a quoted text in one of
three ways (`Stands`). From them follows all that is said of quoted texts here: what they are read
as, that no quote stands open in them, and that every character in them is visible. -/
namespace Fibers.Text

/-! ### Reading -/

/-- The value of a hexadecimal digit in lower case. -/
def hexValue? (c : Char) : Option Nat :=
  if c.isDigit then some (c.toNat - '0'.toNat)
  else if 'a' ≤ c ∧ c ≤ 'f' then some (c.toNat - 'a'.toNat + 10)
  else none

/-- The character with this code point, if there is one. -/
def char? (n : Nat) : Option Char :=
  if n.isValidChar then some (Char.ofNat n) else none

/-- The character that stands behind a backslash as this one. -/
def unescape? : Char → Option Char
  | '0' => some '\x00'
  | 't' => some '\t'
  | 'r' => some '\r'
  | 'n' => some '\n'
  | '"' => some '"'
  | '\\' => some '\\'
  | _ => none

/-- How far a reader of a quoted text has come. -/
inductive Reading
  /-- Before a character or the closing quote. -/
  | plain
  /-- Behind a backslash. -/
  | escape
  /-- Between braces, behind digits that stand for this number so far. -/
  | code (n : Nat)

/-- Another character in front of what was read. -/
def push (c : Char) : List Char × List Char → List Char × List Char := Prod.map (c :: ·) id

/-- The text up to the closing quote, and what stands behind that. -/
def unquoteFrom : Reading → List Char → Option (List Char × List Char)
  | .plain, '"' :: rest => some ([], rest)
  | .plain, '\\' :: rest => unquoteFrom .escape rest
  | .plain, c :: rest => (unquoteFrom .plain rest).map (push c)
  | .escape, 'u' :: '\x7b' :: rest => unquoteFrom (.code 0) rest
  | .escape, e :: rest => (unescape? e).bind fun c => (unquoteFrom .plain rest).map (push c)
  | .code n, '\x7d' :: rest => (char? n).bind fun c => (unquoteFrom .plain rest).map (push c)
  | .code n, d :: rest => (hexValue? d).bind fun v => unquoteFrom (.code (16 * n + v)) rest
  | _, [] => none

/-- A text between quotes, and what stands behind them. -/
def unquote? : List Char → Option (List Char × List Char)
  | '"' :: rest => unquoteFrom .plain rest
  | _ => none

/-- Every quote and every backslash is part of an escape, and no escape is cut off. -/
inductive Guarded : List Char → Prop
  | nil : Guarded []
  | plain {c : Char} {cs : List Char} (hquote : c ≠ '"') (hbackslash : c ≠ '\\')
    (h : Guarded cs) : Guarded (c :: cs)
  | escape (c : Char) {cs : List Char} (h : Guarded cs) : Guarded ('\\' :: c :: cs)

/-- The character has a form of its own, and changes that of no other. -/
def isVisible (c : Char) : Bool := !isCombining c && !isInvisible c

/-- The characters at which a line may end. -/
def lineEnds : List Char := ['\n', '\x0b', '\x0c', '\r', '\u0085', '\u2028', '\u2029']

/-- How a character stands in a quoted text. -/
inductive Stands : Char → List Char → Prop
  | itself {c : Char} (hquote : c ≠ '"') (hbackslash : c ≠ '\\') (h : isVisible c = true) :
    Stands c [c]
  | short {e c : Char} (h : unescape? e = some c) : Stands c ['\\', e]
  | code (c : Char) : Stands c (escapeByCode c)

variable {c e : Char} {cs text rest : List Char} {n : Nat}

/-! ### Visible characters -/

theorem isVisible_iff : isVisible c = true ↔ isCombining c = false ∧ isInvisible c = false := by
  simp [isVisible]

theorem isControl_of_isVisible (h : isVisible c = true) : isControl c = false := by
  have hinvisible := (isVisible_iff.mp h).2
  rw [isInvisible, Bool.or_eq_false_iff] at hinvisible
  exact hinvisible.1

/-- A line ends at no visible character. -/
theorem not_mem_lineEnds (h : isVisible c = true) : c ∉ lineEnds := by
  have hinvisible : lineEnds.all isInvisible = true := by decide +kernel
  intro hc
  have := List.all_eq_true.mp hinvisible c hc
  simp [(isVisible_iff.mp h).2] at this

/-- The tables of characters that are not visible begin behind the printable ones of ASCII. -/
theorem isVisible_of_ascii (hlow : 0x20 ≤ c.toNat) (hhigh : c.toNat < 0x7f) :
    isVisible c = true := by
  have hbeyond : ∀ range ∈ combiningRanges ++ invisibleRanges, 0x7f ≤ range.1 := by decide +kernel
  have hout (range : Nat × Nat) (h : range ∈ combiningRanges ++ invisibleRanges) :
      ¬(decide (range.1 ≤ c.toNat) && decide (c.toNat ≤ range.2)) = true := by
    have := hbeyond range h
    simp only [Bool.and_eq_true, decide_eq_true_eq]
    omega
  have hcontrol : isControl c = false := by
    simp only [isControl, Bool.or_eq_false_iff, Bool.and_eq_false_imp, decide_eq_true_eq,
      decide_eq_false_iff_not]
    omega
  refine isVisible_iff.mpr ⟨List.any_eq_false.mpr fun range h => hout range (by simp [h]), ?_⟩
  rw [isInvisible, hcontrol, Bool.false_or]
  exact List.any_eq_false.mpr fun range h => hout range (by simp [h])

/-! ### Codes -/

theorem hexValue?_digitChar : ∀ v < 16, hexValue? v.digitChar = some v := by
  decide

theorem char?_toNat (c : Char) : char? c.toNat = some c := by
  have hvalid : c.toNat.isValidChar := c.valid
  rw [char?, if_pos hvalid, Char.ofNat_toNat]

/-- The digits of a number: none of them is of special meaning. -/
theorem ascii_of_mem_toDigits (h : c ∈ Nat.toDigits 16 n) :
    0x30 ≤ c.toNat ∧ c.toNat ≤ 0x66 ∧ c ≠ '\\' := by
  induction n using Nat.strongRecOn with
  | _ n ih =>
    rw [Nat.toDigits_eq_if (by decide)] at h
    have hdigit : ∀ v < 16, 0x30 ≤ v.digitChar.toNat ∧ v.digitChar.toNat ≤ 0x66 ∧
        v.digitChar ≠ '\\' := by decide
    split at h
    · next hn => exact List.mem_singleton.mp h ▸ hdigit n hn
    · next hn =>
      rcases List.mem_append.mp h with h | h
      · exact ih (n / 16) (by omega) h
      · exact List.mem_singleton.mp h ▸ hdigit _ (Nat.mod_lt n (by decide))

/-- Behind the digits of a number the reader knows the number. -/
theorem unquoteFrom_toDigits (n : Nat) (rest : List Char) :
    unquoteFrom (.code 0) (Nat.toDigits 16 n ++ rest) = unquoteFrom (.code n) rest := by
  -- The last digit stands behind the digits of the other number, so what follows those varies.
  induction n using Nat.strongRecOn generalizing rest with
  | _ n ih =>
    have hdigit (m v : Nat) (hv : v < 16) :
        unquoteFrom (.code m) (v.digitChar :: rest) = unquoteFrom (.code (16 * m + v)) rest := by
      simp [unquoteFrom, hexValue?_digitChar v hv]
    rw [Nat.toDigits_eq_if (by decide)]
    split
    · next hn => simpa using hdigit 0 n hn
    · next hn =>
      rw [List.append_assoc, ih (n / 16) (by omega), List.singleton_append,
        hdigit _ _ (Nat.mod_lt n (by decide)), Nat.div_add_mod]

/-! ### Characters -/

theorem stands_quoteChar (c : Char) : Stands c (quoteChar c) := by
  unfold quoteChar
  split_ifs with hnul htab hreturn hfeed hquote hbackslash hseen
  · exact hnul ▸ .short (e := '0') rfl
  · exact htab ▸ .short (e := 't') rfl
  · exact hreturn ▸ .short (e := 'r') rfl
  · exact hfeed ▸ .short (e := 'n') rfl
  · exact hquote ▸ .short (e := '"') rfl
  · exact hbackslash ▸ .short (e := '\\') rfl
  · exact .code c
  · refine .itself hquote hbackslash (isVisible_iff.mpr ?_)
    simpa using hseen

theorem ascii_of_unescape? (h : unescape? e = some c) : 0x20 ≤ e.toNat ∧ e.toNat < 0x7f := by
  revert h
  fun_cases unescape? e with
  | case7 => exact nofun
  | _ => exact fun _ => by decide

/-- However a character stands there, it is read as itself. -/
theorem Stands.unquoteFrom (h : Stands c text) (rest : List Char) :
    unquoteFrom .plain (text ++ rest) = (unquoteFrom .plain rest).map (push c) := by
  cases h with
  | itself hquote hbackslash _ =>
    rw [List.singleton_append, Text.unquoteFrom]
    · exact hquote
    · exact hbackslash
  | @short e _ h =>
    have he : e ≠ 'u' := by
      rintro rfl
      cases h
    simp [Text.unquoteFrom, he, h]
  | code _ =>
    simp [escapeByCode, Text.unquoteFrom, unquoteFrom_toDigits, char?_toNat]

/-- Whatever stands there for a character is visible. -/
theorem Stands.visible (h : Stands c text) : ∀ d ∈ text, isVisible d = true := by
  intro d hd
  cases h with
  | itself _ _ h => exact List.mem_singleton.mp hd ▸ h
  | short h =>
    obtain ⟨hlow, hhigh⟩ := ascii_of_unescape? h
    rcases List.mem_cons.mp hd with rfl | hd
    · exact isVisible_of_ascii (by decide) (by decide)
    · exact List.mem_singleton.mp hd ▸ isVisible_of_ascii hlow hhigh
  | code _ =>
    simp only [escapeByCode, List.mem_cons, List.mem_append, List.not_mem_nil, or_false] at hd
    rcases hd with rfl | rfl | rfl | hd | rfl
    · exact isVisible_of_ascii (by decide) (by decide)
    · exact isVisible_of_ascii (by decide) (by decide)
    · exact isVisible_of_ascii (by decide) (by decide)
    · obtain ⟨hlow, hhigh, -⟩ := ascii_of_mem_toDigits hd
      exact isVisible_of_ascii (by omega) (by omega)
    · exact isVisible_of_ascii (by decide) (by decide)

theorem Guarded.append (h : Guarded cs) (hrest : Guarded rest) : Guarded (cs ++ rest) := by
  induction h with
  | nil => exact hrest
  | plain hquote hbackslash _ ih => exact .plain hquote hbackslash ih
  | escape c _ ih => exact .escape c ih

theorem guarded_of_forall (h : ∀ c ∈ cs, c ≠ '"' ∧ c ≠ '\\') : Guarded cs := by
  induction cs with
  | nil => exact .nil
  | cons c cs ih =>
    obtain ⟨hc, hcs⟩ := List.forall_mem_cons.mp h
    exact .plain hc.1 hc.2 (ih hcs)

/-- Whatever stands there for a character is an escape as a whole, or needs none. -/
theorem Stands.guarded (h : Stands c text) : Guarded text := by
  cases h with
  | itself hquote hbackslash _ => exact .plain hquote hbackslash .nil
  | short _ => exact .escape _ .nil
  | code _ =>
    refine .escape 'u' (guarded_of_forall fun d hd => ?_)
    simp only [List.mem_cons, List.mem_append, List.not_mem_nil, or_false] at hd
    rcases hd with rfl | hd | rfl
    · decide
    · obtain ⟨hlow, -, hbackslash⟩ := ascii_of_mem_toDigits hd
      refine ⟨?_, hbackslash⟩
      rintro rfl
      exact absurd hlow (by decide)
    · decide

/-! ### Texts -/

theorem unquoteFrom_flatMap (cs rest : List Char) :
    unquoteFrom .plain (cs.flatMap quoteChar ++ '"' :: rest) = some (cs, rest) := by
  induction cs with
  | nil => rfl
  | cons c cs ih =>
    rw [List.flatMap_cons, List.append_assoc, (stands_quoteChar c).unquoteFrom, ih]
    rfl

/-- **A quoted text is read as the text**, and all that stands behind it is left. -/
theorem unquote?_quoteChars (cs rest : List Char) :
    unquote? (quoteChars cs ++ rest) = some (cs, rest) := by
  rw [quoteChars, List.cons_append, List.append_assoc]
  exact unquoteFrom_flatMap cs rest

theorem guarded_flatMap (cs : List Char) : Guarded (cs.flatMap quoteChar) := by
  induction cs with
  | nil => exact .nil
  | cons c cs ih =>
    rw [List.flatMap_cons]
    exact (stands_quoteChar c).guarded.append ih

theorem visible_flatMap : ∀ d ∈ cs.flatMap quoteChar, isVisible d = true := by
  intro d hd
  obtain ⟨c, -, hd⟩ := List.mem_flatMap.mp hd
  exact (stands_quoteChar c).visible d hd

/-- A quote and what looks like an escape are read back as they were. -/
example : unquote? (quoteChars "\"\\u\x7b41\x7d\u0301\u2028".toList ++ "\"".toList) =
    some ("\"\\u\x7b41\x7d\u0301\u2028".toList, ['"']) := by
  decide +kernel

end Fibers.Text
