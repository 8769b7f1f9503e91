import Mathlib
import Fibers.Config.Environment

/-! Sizes as they are written.

`Decimal` says what number a row of digits stands for, and `Writes` which texts stand for a size:
white space, possibly a plus sign, digits, white space, and a value that a word can hold. A text is
read as a size exactly if it stands for it (`Text.size?_eq_some`), however long it is. From this
follows what a configuration is resolved to, whatever the lookup does besides. -/
namespace Fibers
namespace Text

/-- A row of decimal digits, and the number that it stands for. -/
inductive Decimal : List Char → Nat → Prop
  | digit {c : Char} (hc : c.isDigit = true) : Decimal [c] (c.toNat - '0'.toNat)
  | snoc {cs : List Char} {n : Nat} {c : Char} (h : Decimal cs n) (hc : c.isDigit = true) :
    Decimal (cs ++ [c]) (10 * n + (c.toNat - '0'.toNat))

/-- Nothing but white space. -/
def Blank (cs : List Char) : Prop := ∀ c ∈ cs, isBlank c = true

/-- The text stands for a size. -/
structure Writes (text : List Char) (n : Nat) : Prop where
  written : ∃ before sign digits after, text = before ++ (sign ++ digits) ++ after ∧
    Blank before ∧ (sign = [] ∨ sign = ['+']) ∧ Decimal digits n ∧ Blank after
  positive : 1 ≤ n
  fits : n ≤ 2 ^ 64 - 1

variable {cs before core after : List Char} {n : Nat} {c : Char}

/-! ### Digits -/

theorem Decimal.ne_nil (h : Decimal cs n) : cs ≠ [] := by
  cases h <;> simp

theorem Decimal.isDigit (h : Decimal cs n) : ∀ c ∈ cs, c.isDigit = true := by
  induction h with
  | digit hc => exact List.forall_mem_singleton.mpr hc
  | snoc _ hc ih => exact List.forall_mem_append.mpr ⟨ih, List.forall_mem_singleton.mpr hc⟩

theorem Decimal.value (h : Decimal cs n) : Nat.ofDigitChars 10 cs 0 = n := by
  induction h with
  | digit hc => simp [Nat.ofDigitChars_cons]
  | snoc _ hc ih => rw [Nat.ofDigitChars_append, ih, Nat.ofDigitChars_cons, Nat.ofDigitChars_nil]

/-- Any row of digits stands for a number. -/
theorem decimal_ofDigitChars (hne : cs ≠ []) (hdigits : ∀ c ∈ cs, c.isDigit = true) :
    Decimal cs (Nat.ofDigitChars 10 cs 0) := by
  induction cs using List.reverseRecOn with
  | nil => exact (hne rfl).elim
  | append_singleton cs c ih =>
    obtain ⟨hcs, hc⟩ := List.forall_mem_append.mp hdigits
    have hc := hc c (List.mem_singleton_self c)
    by_cases hnil : cs = []
    · subst hnil
      simpa [Nat.ofDigitChars_cons] using Decimal.digit hc
    · rw [Nat.ofDigitChars_append, Nat.ofDigitChars_cons, Nat.ofDigitChars_nil]
      exact (ih hnil hcs).snoc hc

theorem decimal?_eq_some : decimal? cs = some n ↔ Decimal cs n := by
  rw [decimal?]
  split
  · next h =>
    have hdecimal := decimal_ofDigitChars h.1 (List.all_eq_true.mp h.2)
    rw [Option.some_inj]
    exact ⟨fun hn => hn ▸ hdecimal, fun hn => hn.value⟩
  · next h =>
    refine ⟨nofun, fun hn => (h ⟨hn.ne_nil, List.all_eq_true.mpr hn.isDigit⟩).elim⟩

/-- Zeros in front of a number change nothing. -/
theorem Decimal.zeros (h : Decimal cs n) (k : Nat) : Decimal (List.replicate k '0' ++ cs) n := by
  have hdigits : ∀ c ∈ List.replicate k '0' ++ cs, c.isDigit = true :=
    List.forall_mem_append.mpr ⟨fun c hc => (List.eq_of_mem_replicate hc) ▸ rfl, h.isDigit⟩
  have hdecimal := decimal_ofDigitChars (by simp [h.ne_nil]) hdigits
  rwa [Nat.ofDigitChars_append, Nat.ofDigitChars_replicate_zero, Nat.mul_zero, h.value] at hdecimal

/-- The text of a number stands for it. -/
theorem decimal_repr (n : Nat) : Decimal n.repr.toList n := by
  rw [Nat.toList_repr]
  have hdigits : ∀ c ∈ Nat.toDigits 10 n, c.isDigit = true := fun c hc =>
    Nat.isDigit_of_mem_toDigits (by decide) (by decide) hc
  have hdecimal := decimal_ofDigitChars Nat.toDigits_ne_nil hdigits
  rwa [Nat.ofDigitChars_toDigits (by decide) (by decide)] at hdecimal

/-! ### White space and signs -/

theorem not_isBlank_of_isDigit (h : c.isDigit = true) : isBlank c = false := by
  have hrange : 48 ≤ c.toNat ∧ c.toNat ≤ 57 := Char.isDigit_iff_toNat.mp h
  simp only [isBlank, blankRanges, List.any_cons, List.any_nil, Bool.or_false,
    Bool.or_eq_false_iff, Bool.and_eq_false_imp, decide_eq_true_eq, decide_eq_false_iff_not, not_le]
  omega

theorem dropWhile_isBlank (h : ∀ c ∈ cs, isBlank c = false) (hne : cs ≠ []) (rest : List Char) :
    (cs ++ rest).dropWhile isBlank = cs ++ rest := by
  cases cs with
  | nil => exact (hne rfl).elim
  | cons c cs =>
    rw [List.cons_append, List.dropWhile_cons_of_neg]
    rw [h c (List.mem_cons_self ..)]
    exact Bool.false_ne_true

/-- White space goes from both ends of what has none. -/
theorem trim_eq (hbefore : Blank before) (hafter : Blank after)
    (hcore : ∀ c ∈ core, isBlank c = false) (hne : core ≠ []) :
    trim (before ++ core ++ after) = core := by
  have hcore' : ∀ c ∈ core.reverse, isBlank c = false := fun c hc =>
    hcore c (List.mem_reverse.mp hc)
  have hafter' : Blank after.reverse := fun c hc => hafter c (List.mem_reverse.mp hc)
  have hlast := dropWhile_isBlank hcore' (List.reverse_ne_nil_iff.mpr hne) []
  rw [List.append_nil] at hlast
  rw [trim, List.append_assoc, List.dropWhile_append_of_pos hbefore, dropWhile_isBlank hcore hne,
    List.reverse_append, List.dropWhile_append_of_pos hafter', hlast, List.reverse_reverse]

theorem blank_takeWhile (cs : List Char) : Blank (cs.takeWhile isBlank) := fun _ hc =>
  List.mem_takeWhile_imp hc

/-- Nothing but white space goes from the ends. -/
theorem exists_trim (cs : List Char) :
    ∃ before after, cs = before ++ trim cs ++ after ∧ Blank before ∧ Blank after := by
  refine ⟨cs.takeWhile isBlank, ((cs.dropWhile isBlank).reverse.takeWhile isBlank).reverse, ?_,
    blank_takeWhile cs, fun c hc => blank_takeWhile _ c (List.mem_reverse.mp hc)⟩
  rw [trim, List.append_assoc, ← List.reverse_append, List.takeWhile_append_dropWhile,
    List.reverse_reverse, List.takeWhile_append_dropWhile]

theorem exists_dropSign (cs : List Char) :
    ∃ sign, (sign = [] ∨ sign = ['+']) ∧ cs = sign ++ dropSign cs := by
  fun_cases dropSign cs with
  | case1 rest => exact ⟨['+'], .inr rfl, rfl⟩
  | case2 => exact ⟨[], .inl rfl, rfl⟩

theorem dropSign_of_decimal (h : Decimal cs n) : dropSign cs = cs := by
  fun_cases dropSign cs with
  | case1 rest => exact absurd (h.isDigit '+' (List.mem_cons_self ..)) (by decide)
  | case2 => rfl

/-! ### Sizes -/

/-- **A text is read as a size exactly if it stands for it.** -/
theorem size?_eq_some {text : String} : size? text = some n ↔ Writes text.toList n := by
  rw [size?, Option.filter_eq_some_iff, decimal?_eq_some, Bool.and_eq_true, decide_eq_true_eq,
    decide_eq_true_eq]
  have hbound : Word.bound = 2 ^ 64 := rfl
  constructor
  · rintro ⟨hdigits, hpositive, hfits⟩
    obtain ⟨before, after, htext, hbefore, hafter⟩ := exists_trim text.toList
    obtain ⟨sign, hsign, hcore⟩ := exists_dropSign (trim text.toList)
    exact ⟨⟨before, sign, _, after, hcore ▸ htext, hbefore, hsign, hdigits, hafter⟩, hpositive,
      by omega⟩
  · rintro ⟨⟨before, sign, digits, after, htext, hbefore, hsign, hdigits, hafter⟩, hpositive, hfits⟩
    refine ⟨?_, hpositive, by omega⟩
    have hblank : ∀ c ∈ sign ++ digits, isBlank c = false := by
      refine List.forall_mem_append.mpr
        ⟨?_, fun c hc => not_isBlank_of_isDigit (hdigits.isDigit c hc)⟩
      rcases hsign with rfl | rfl
      · exact nofun
      · exact List.forall_mem_singleton.mpr (by decide)
    rw [htext, trim_eq hbefore hafter hblank (by simp [hdigits.ne_nil])]
    rcases hsign with rfl | rfl
    · rwa [List.nil_append, dropSign_of_decimal hdigits]
    · exact hdigits

/-- A number stands for itself, with white space around it and zeros in front of it. -/
theorem writes_repr (hbefore : Blank before) (hafter : Blank after) (k : Nat) (hpositive : 1 ≤ n)
    (hfits : n ≤ 2 ^ 64 - 1) :
    Writes (before ++ List.replicate k '0' ++ n.repr.toList ++ after) n where
  written := ⟨before, [], List.replicate k '0' ++ n.repr.toList, after, by simp, hbefore, .inl rfl,
    (decimal_repr n).zeros k, hafter⟩
  positive := hpositive
  fits := hfits

end Text

namespace Config

/-! ### Lookups -/

/-- What the answer of a lookup is resolved to. -/
def resolve (answer? : Option String) : Except Error Config :=
  match answer? with
  | none => .ok default
  | some value => (parseSize stackSizeKey value).map ({stackSize := ·})

/-- The lookup is asked once, and what it answers is resolved. -/
theorem ofLookup_eq {m : Type → Type} [Monad m] [LawfulMonad m]
    (lookup : String → m (Option String)) : ofLookup lookup = resolve <$> lookup stackSizeKey := by
  rw [ofLookup, map_eq_pure_bind]
  congr 1
  funext answer?
  cases answer? <;> rfl

theorem resolve_eq_ok {value : String} {n : Nat} :
    resolve (some value) = .ok ⟨n⟩ ↔ Text.Writes value.toList n := by
  rw [← Text.size?_eq_some, resolve, parseSize]
  cases Text.size? value with
  | none => exact ⟨nofun, nofun⟩
  | some m =>
    show Except.ok (Config.mk m) = .ok ⟨n⟩ ↔ _
    rw [Except.ok.injEq, Config.mk.injEq, Option.some_inj]

theorem resolve_eq_error {value : String} (h : ∀ n, ¬Text.Writes value.toList n) :
    resolve (some value) = .error (.invalidConfig stackSizeKey value) := by
  have hnone : Text.size? value = none :=
    Option.eq_none_iff_forall_ne_some.mpr fun n hn => h n (Text.size?_eq_some.mp hn)
  rw [resolve, parseSize, hnone]
  rfl

section Lookup

variable {σ : Type} (lookup : String → StateM σ (Option String))

/-- The lookup, which also notes what it is asked for. -/
def asking (name : String) : StateM (σ × List String) (Option String) := fun (s, asked) =>
  let (answer?, s) := (lookup name).run s
  (answer?, (s, asked ++ [name]))

/-- What comes of an answer for the default stack size. -/
structure Reads (answer? : Option String) (result : Except Error Config) : Prop where
  /-- If the name is not known, the default stays. -/
  unknown : answer? = none → result = .ok ⟨131072⟩
  /-- A text is accepted as a size exactly if it stands for it. -/
  accepts : ∀ value n, answer? = some value →
    (result = .ok ⟨n⟩ ↔ Text.Writes value.toList n)
  /-- Any other text is refused, and reported as it was given. -/
  refuses : ∀ value, answer? = some value → (∀ n, ¬Text.Writes value.toList n) →
    result = .error (.invalidConfig "fiber.stack_size" value)
  /-- The text of a size is accepted as that size, with white space around it and zeros in front. -/
  restores : ∀ before k n after, Text.Blank before → Text.Blank after → 1 ≤ n → n ≤ 2 ^ 64 - 1 →
    answer? = some (.ofList (before ++ List.replicate k '0' ++ n.repr.toList ++ after)) →
    result = .ok ⟨n⟩

/-- What a configuration is resolved to through a lookup that keeps a state. -/
structure Resolves (s : σ) : Prop where
  /-- It is asked for the default stack size, and for nothing else. -/
  asks : ∀ asked, ((ofLookup (asking lookup)).run (s, asked)).2 =
    (((lookup "fiber.stack_size").run s).2, asked ++ ["fiber.stack_size"])
  /-- The answer decides. -/
  reads : Reads ((lookup "fiber.stack_size").run s).1 ((ofLookup lookup).run s).1
  /-- Noting what it is asked for changes nothing. -/
  notes : ∀ asked, ((ofLookup (asking lookup)).run (s, asked)).1 = ((ofLookup lookup).run s).1

theorem run_ofLookup (s : σ) : (ofLookup lookup).run s =
    (resolve ((lookup stackSizeKey).run s).1, ((lookup stackSizeKey).run s).2) := by
  rw [ofLookup_eq]
  rfl

theorem reads_resolve (answer? : Option String) : Reads answer? (resolve answer?) where
  unknown h := by
    rw [h]
    rfl
  accepts value n h := by rw [h, resolve_eq_ok]
  refuses value h hnone := by
    rw [h]
    exact resolve_eq_error hnone
  restores before k n after hbefore hafter hpositive hfits h := by
    rw [h, resolve_eq_ok, String.toList_ofList]
    exact Text.writes_repr hbefore hafter k hpositive hfits

/-- **Accepted sizes**: whatever the lookup, the configuration has the size that its one answer
stands for, or is refused with that answer. -/
theorem lookup_resolves (s : σ) : Resolves lookup s where
  asks asked := by
    rw [run_ofLookup]
    rfl
  reads := by
    rw [run_ofLookup]
    exact reads_resolve _
  notes asked := by
    rw [run_ofLookup, run_ofLookup]
    rfl

end Lookup

example : (ofValues [("fiber.stack_size", "\t+00016384 ")]).1 = .ok ⟨16384⟩ := by decide +kernel

example : (ofValues [("fiber.stack_size", " 16 384")]).1 =
    .error (.invalidConfig "fiber.stack_size" " 16 384") := by decide +kernel

end Config
end Fibers
