import Chip8.Json.Skip
import Chip8.Proofs.Json.Number

/-!
# JSON texts

The grammar of JSON over bytes, without regard to how it is read: numbers (`IsNumber`), strings
(`Quoted`), and values of any depth (`Derives .value`).  A container is what stands up to its end:
its closing byte, or an item and then what stands up to its end (`Derives (.rest nest first)`).

A value that is not wanted is passed over, whatever it is and whatever stops it:

    Derives .value text → Blank blanks → Stops rest →
      skipValue (blanks ++ (text ++ rest)) = .ok ((), rest)               (skipValue_of_derives)
-/

namespace Chip8.Json

open Reader

/-! ## Grammar -/

def Blank (text : List UInt8) : Prop := ∀ b ∈ text, isBlank b = true

instance (text : List UInt8) : Decidable (Blank text) :=
  decidable_of_iff (text.all isBlank = true) List.all_eq_true

/-- At least one digit, and nothing else. -/
def IsDigits (text : List UInt8) : Prop := text ≠ [] ∧ ∀ b ∈ text, isDigit b = true

/-- Digits that do not start with zero, or zero alone. -/
def IsWhole (text : List UInt8) : Prop := IsDigits text ∧ (text.head? = some 0x30 → text.length = 1)

/-- A point and digits, or nothing. -/
def IsFraction (text : List UInt8) : Prop :=
  text = [] ∨ ∃ digits, IsDigits digits ∧ text = point :: digits

/-- A mark, perhaps a sign, and digits; or nothing. -/
def IsExponent (text : List UInt8) : Prop :=
  text = [] ∨ ∃ mark sign digits, isExponentMark mark = true ∧
    (sign = [] ∨ sign = [plus] ∨ sign = [minus]) ∧ IsDigits digits ∧
    text = mark :: (sign ++ digits)

/-- A number after its sign. -/
def IsUnsigned (text : List UInt8) : Prop :=
  ∃ whole fraction exponent, IsWhole whole ∧ IsFraction fraction ∧ IsExponent exponent ∧
    text = whole ++ fraction ++ exponent

def IsNumber (text : List UInt8) : Prop :=
  IsUnsigned text ∨ ∃ unsigned, IsUnsigned unsigned ∧ text = minus :: unsigned

/-- The letters after a backslash, each with the byte that it stands for. -/
def escapes : List (UInt8 × UInt8) :=
  [(0x22, 0x22), (0x5C, 0x5C), (0x2F, 0x2F), (0x62, 0x08), (0x66, 0x0C), (0x6E, 0x0A), (0x72, 0x0D),
    (0x74, 0x09)]

/-- A hexadecimal digit of either case, and its value. -/
def Hex (b : UInt8) (n : Nat) : Prop :=
  (ascii "0123456789abcdef")[n]? = some b ∨ (ascii "0123456789ABCDEF")[n]? = some b

instance (b : UInt8) (n : Nat) : Decidable (Hex b n) := inferInstanceAs (Decidable (_ ∨ _))

/-- Four hexadecimal digits, and their value. -/
def HexCode (digits : List UInt8) (code : Nat) : Prop :=
  ∃ b₁ b₂ b₃ b₄ n₁ n₂ n₃ n₄, digits = [b₁, b₂, b₃, b₄] ∧ Hex b₁ n₁ ∧ Hex b₂ n₂ ∧ Hex b₃ n₃ ∧
    Hex b₄ n₄ ∧ code = 0x1000 * n₁ + 0x100 * n₂ + 0x10 * n₃ + n₄

/-- What may stand between the quotes of a string, be it characters or not. -/
inductive Quoted : List UInt8 → Prop
  | nil : Quoted []
  | plain {b : UInt8} {text : List UInt8} (hquote : b ≠ quote) (hslash : b ≠ backslash)
      (hcontrol : ¬b < 0x20) (later : Quoted text) : Quoted (b :: text)
  | letter {letter b : UInt8} {text : List UInt8} (hletter : (letter, b) ∈ escapes)
      (later : Quoted text) : Quoted (backslash :: letter :: text)
  | code {digits text : List UInt8} {code : Nat} (hcode : HexCode digits code)
      (later : Quoted text) : Quoted (backslash :: Text.codeMark :: (digits ++ text))

/-- What stands in front of the value of an item. -/
inductive Label : Nest → List UInt8 → Prop
  | array : Label .array []
  | record {name blanks between : List UInt8} (hname : Quoted name) (hblanks : Blank blanks)
      (hbetween : Blank between) :
      Label .record (blanks ++ (quote :: (name ++ quote :: (between ++ [colon]))))

/-- Between items stands a comma, in front of the first of them nothing; blanks anyway. -/
def Separator (first : Bool) (text : List UInt8) : Prop :=
  ∃ blanks, Blank blanks ∧ text = if first then blanks else blanks ++ [comma]

inductive Phrase where
  | value
  /-- What stands in a container up to its end; `first` says that no item came before. -/
  | rest (nest : Nest) (first : Bool)
  deriving DecidableEq, Repr

def opening : Nest → UInt8
  | .array => openArray
  | .record => openRecord

/-- The texts of JSON. -/
inductive Derives : Phrase → List UInt8 → Prop
  | word {letters : List UInt8} (h : letters ∈ [ascii "null", ascii "true", ascii "false"]) :
      Derives .value letters
  | number {text : List UInt8} (h : IsNumber text) : Derives .value text
  | string {body : List UInt8} (h : Quoted body) : Derives .value (quote :: (body ++ [quote]))
  | container (nest : Nest) {inner : List UInt8} (h : Derives (.rest nest true) inner) :
      Derives .value (opening nest :: inner)
  | close (nest : Nest) (first : Bool) {blanks : List UInt8} (hblanks : Blank blanks) :
      Derives (.rest nest first) (blanks ++ [nest.close])
  | item {nest : Nest} {first : Bool} {separator label blanks value later : List UInt8}
      (hseparator : Separator first separator) (hlabel : Label nest label)
      (hblanks : Blank blanks) (hvalue : Derives .value value)
      (hlater : Derives (.rest nest false) later) :
      Derives (.rest nest first) (separator ++ (label ++ (blanks ++ (value ++ later))))

/-! ## Ends of numbers -/

theorem ne_of_isDigit {b c : UInt8} (hb : isDigit b = true) (hc : isDigit c = false) : b ≠ c := by
  rintro rfl
  rw [hb] at hc
  cases hc

/-- After the digits of a number comes neither a digit nor a point, exponent or not. -/
theorem IsExponent.head {exponent rest : List UInt8} (h : IsExponent exponent)
    (hrest : Stops rest) : ∀ b ∈ (exponent ++ rest).head?, isDigit b = false ∧ b ≠ point := by
  rcases h with rfl | ⟨mark, sign, digits, hmark, -, -, rfl⟩
  · intro b hb
    refine ⟨hrest.noDigit b hb, ?_⟩
    rintro rfl
    exact absurd (hrest point hb) (by decide)
  · rintro b hb
    cases hb
    simp only [isExponentMark, Bool.or_eq_true, beq_iff_eq] at hmark
    rcases hmark with rfl | rfl <;> decide

theorem IsExponent.noDigit {exponent rest : List UInt8} (h : IsExponent exponent)
    (hrest : Stops rest) : NoDigit (exponent ++ rest) :=
  fun b hb => (h.head hrest b hb).1

theorem IsFraction.noDigit {fraction rest : List UInt8} (h : IsFraction fraction)
    (hrest : NoDigit rest) : NoDigit (fraction ++ rest) := by
  rcases h with rfl | ⟨digits, -, rfl⟩
  · exact hrest
  · exact noDigit_cons (by decide)

theorem IsWhole.not_leading {whole : List UInt8} (h : IsWhole whole) :
    ¬(whole.isEmpty ∨ (whole.head? = some 0x30 ∧ 1 < whole.length)) := by
  rintro (empty | ⟨zero, long⟩)
  · exact h.1.1 (List.isEmpty_iff.1 empty)
  · rw [h.2 zero] at long
    exact absurd long (by decide)

/-! ## Numbers that are not wanted -/

namespace Skip

variable {text rest : List UInt8}

theorem exponent_append {sign digits : List UInt8}
    (hsign : sign = [] ∨ sign = [plus] ∨ sign = [minus]) (hdigits : IsDigits digits)
    (hrest : Stops rest) : exponent (sign ++ digits ++ rest) = .ok rest := by
  have htake := takeWhile_digits hdigits.2 hrest.noDigit
  have hdrop := dropWhile_digits hdigits.2 hrest.noDigit
  have empty : digits.isEmpty = false := by simp [hdigits.1]
  rcases hsign with rfl | rfl | rfl
  · obtain ⟨b, later, rfl⟩ := List.exists_cons_of_ne_nil hdigits.1
    have digit := hdigits.2 b (by simp)
    have hb : ¬(b = plus ∨ b = minus) :=
      not_or.2 ⟨ne_of_isDigit digit (by decide), ne_of_isDigit digit (by decide)⟩
    rw [List.nil_append, List.cons_append, exponent]
    simp only [if_neg hb, ← List.cons_append, htake, hdrop, empty]
    rfl
  · simp only [exponent, List.cons_append, List.nil_append, true_or, if_true, htake, hdrop, empty]
    rfl
  · simp only [exponent, List.cons_append, List.nil_append, or_true, if_true, htake, hdrop, empty]
    rfl

theorem optionalExponent_append (h : IsExponent text) (hrest : Stops rest) :
    optionalExponent (text ++ rest) = .ok rest := by
  rcases h with rfl | ⟨mark, sign, digits, hmark, hsign, hdigits, rfl⟩
  · cases rest with
    | nil => rfl
    | cons b rest =>
      have hlower : b ≠ 0x65 := hrest.head_ne (by decide)
      have hupper : b ≠ 0x45 := hrest.head_ne (by decide)
      simp [optionalExponent, isExponentMark, hlower, hupper]
  · rw [List.cons_append, optionalExponent, if_pos hmark]
    exact exponent_append hsign hdigits hrest

theorem number_append (h : IsUnsigned text) (hrest : Stops rest) :
    number (text ++ rest) = .ok rest := by
  obtain ⟨whole, fraction, exponent, hwhole, hfraction, hexponent, rfl⟩ := h
  have tail := hfraction.noDigit (hexponent.noDigit hrest)
  have htake := takeWhile_digits hwhole.1.2 tail
  have hdrop := dropWhile_digits hwhole.1.2 tail
  rw [List.append_assoc, List.append_assoc]
  simp only [number, htake, hdrop, if_neg hwhole.not_leading]
  rcases hfraction with rfl | ⟨digits, hdigits, rfl⟩
  · rw [List.nil_append]
    have last := optionalExponent_append hexponent hrest
    cases hend : exponent ++ rest with
    | nil => rw [(List.append_eq_nil_iff.1 hend).2]
    | cons b later =>
      have hpoint : b ≠ point := (hexponent.head hrest b (by rw [hend]; rfl)).2
      simp only [if_neg hpoint, ← hend, last]
  · have htake := takeWhile_digits hdigits.2 (hexponent.noDigit hrest)
    have hdrop := dropWhile_digits hdigits.2 (hexponent.noDigit hrest)
    have empty : digits.isEmpty = false := by simp [hdigits.1]
    simp only [List.cons_append, if_true, htake, hdrop, empty]
    exact optionalExponent_append hexponent hrest

end Skip

/-! ## Strings that are not wanted -/

set_option maxRecDepth 4000 in
theorem hexValue?_all : ∀ n, n < 256 → (Text.hexValue? (UInt8.ofNat n)).all
    (fun value => decide (Hex (UInt8.ofNat n) value)) = true := by
  decide

theorem hexValue?_eq_some_iff {b : UInt8} {n : Nat} : Text.hexValue? b = some n ↔ Hex b n := by
  constructor
  · intro h
    have hex := hexValue?_all b.toNat b.toNat_lt
    rw [UInt8.ofNat_toNat, h] at hex
    simpa using hex
  · have lower : ∀ n, n < 16 →
        (ascii "0123456789abcdef")[n]?.bind Text.hexValue? = some n := by decide
    have upper : ∀ n, n < 16 →
        (ascii "0123456789ABCDEF")[n]?.bind Text.hexValue? = some n := by decide
    rintro (h | h)
    · simpa only [h, Option.bind_some] using lower n (List.getElem?_eq_some_iff.1 h).1
    · simpa only [h, Option.bind_some] using upper n (List.getElem?_eq_some_iff.1 h).1

theorem code?_eq_some_iff {b₁ b₂ b₃ b₄ : UInt8} {code : Nat} :
    Text.code? b₁ b₂ b₃ b₄ = some code ↔ HexCode [b₁, b₂, b₃, b₄] code := by
  simp only [Text.code?, Option.bind_eq_bind, Option.bind_eq_some_iff, hexValue?_eq_some_iff,
    Option.pure_def, Option.some.injEq]
  constructor
  · rintro ⟨n₁, h₁, n₂, h₂, n₃, h₃, n₄, h₄, rfl⟩
    exact ⟨b₁, b₂, b₃, b₄, n₁, n₂, n₃, n₄, rfl, h₁, h₂, h₃, h₄, by omega⟩
  · rintro ⟨_, _, _, _, n₁, n₂, n₃, n₄, ⟨⟩, h₁, h₂, h₃, h₄, rfl⟩
    exact ⟨n₁, h₁, n₂, h₂, n₃, h₃, n₄, h₄, by omega⟩

theorem unescape?_eq_some_iff {letter b : UInt8} :
    Text.unescape? letter = some b ↔ (letter, b) ∈ escapes := by
  constructor
  · intro h
    rw [Text.unescape?] at h
    split at h
    · next self =>
      cases h
      rcases self with rfl | rfl | rfl <;> decide
    · obtain ⟨p, hfind, rfl⟩ := Option.map_eq_some_iff.1 h
      have found := List.mem_of_find?_eq_some hfind
      have same : p.2 = letter := by simpa using List.find?_some hfind
      subst same
      simp only [Text.letters, List.mem_cons, List.not_mem_nil, or_false] at found
      rcases found with rfl | rfl | rfl | rfl | rfl <;> decide
  · have all : escapes.all (fun p => Text.unescape? p.1 == some p.2) = true := by decide
    intro h
    simpa using List.all_eq_true.1 all _ h

theorem escapes_ne_codeMark {letter b : UInt8} (h : (letter, b) ∈ escapes) :
    letter ≠ Text.codeMark := by
  rintro rfl
  cases unescape?_eq_some_iff.2 h

theorem skip_quoted {body : List UInt8} (h : Quoted body) (rest : List UInt8) :
    Text.skip (body ++ quote :: rest) = .ok rest := by
  induction h with
  | nil =>
    rw [List.nil_append, Text.skip.eq_def]
    rfl
  | plain hquote hslash hcontrol _ ih =>
    rw [List.cons_append, Text.skip.eq_def]
    simp only [hquote, hslash, hcontrol, if_false]
    exact ih
  | letter hletter _ ih =>
    rw [List.cons_append, List.cons_append, Text.skip.eq_def]
    simp only [escapes_ne_codeMark hletter, unescape?_eq_some_iff.2 hletter, if_true, if_false]
    exact ih
  | code hcode _ ih =>
    obtain ⟨b₁, b₂, b₃, b₄, n₁, n₂, n₃, n₄, rfl, -⟩ := id hcode
    rw [Text.skip.eq_def]
    simp only [List.cons_append, List.nil_append, code?_eq_some_iff.2 hcode, if_true]
    exact ih

/-! ## Values that are not wanted -/

theorem IsNumber.starts {text : List UInt8} (h : IsNumber text) :
    ∃ b later, text = b :: later ∧ (isDigit b = true ∨ b = minus) := by
  rcases h with ⟨whole, fraction, exponent, hwhole, -, -, rfl⟩ | ⟨unsigned, -, rfl⟩
  · obtain ⟨b, later, rfl⟩ := List.exists_cons_of_ne_nil hwhole.1.1
    exact ⟨b, _, by rw [List.cons_append, List.cons_append], .inl (hwhole.1.2 b (by simp))⟩
  · exact ⟨minus, unsigned, rfl, .inr rfl⟩

/-- A value starts with a byte that stops no other. -/
theorem Derives.starts {text : List UInt8} (h : Derives .value text) :
    ∃ b later, text = b :: later ∧ isStop b = false := by
  cases h with
  | word h =>
    simp only [List.mem_cons, List.not_mem_nil, or_false] at h
    rcases h with rfl | rfl | rfl <;> exact ⟨_, _, rfl, by decide⟩
  | number h =>
    obtain ⟨b, later, rfl, digit | rfl⟩ := h.starts
    · exact ⟨b, later, rfl, not_isStop_of_isDigit digit⟩
    · exact ⟨minus, later, rfl, by decide⟩
  | string h => exact ⟨quote, _, rfl, by decide⟩
  | container nest h => exact ⟨opening nest, _, rfl, by cases nest <;> decide⟩

namespace Skip

variable {nest : Nest} {text other rest : List UInt8}

theorem scalar_word {letters : List UInt8}
    (h : letters ∈ [ascii "null", ascii "true", ascii "false"]) (rest : List UInt8) :
    ∃ b later, letters = b :: later ∧ scalar b (later ++ rest) = .ok rest ∧
      b ≠ openArray ∧ b ≠ openRecord := by
  have spelled (b : UInt8) (later : List UInt8) (h : literal? b = some later) :
      scalar b (later ++ rest) = .ok rest := by
    simp only [scalar, h, word_append]
    rfl
  simp only [List.mem_cons, List.not_mem_nil, or_false] at h
  rcases h with rfl | rfl | rfl <;>
    exact ⟨_, _, rfl, spelled _ _ rfl, by decide, by decide⟩

theorem literal?_of_isDigit {b : UInt8} (h : isDigit b = true) : literal? b = none := by
  rw [literal?, if_neg (ne_of_isDigit h (by decide)), if_neg (ne_of_isDigit h (by decide)),
    if_neg (ne_of_isDigit h (by decide))]

theorem scalar_number (h : IsNumber text) (hrest : Stops rest) :
    ∃ b later, text = b :: later ∧ scalar b (later ++ rest) = .ok rest ∧
      b ≠ openArray ∧ b ≠ openRecord := by
  rcases h with unsigned | ⟨unsigned, hunsigned, rfl⟩
  · have hnumber := number_append unsigned hrest
    obtain ⟨whole, fraction, exponent, hwhole, -, -, rfl⟩ := unsigned
    obtain ⟨b, later, rfl⟩ := List.exists_cons_of_ne_nil hwhole.1.1
    have digit := hwhole.1.2 b (by simp)
    have differs {c : UInt8} (hc : isDigit c = false) : b ≠ c := ne_of_isDigit digit hc
    refine ⟨b, _, rfl, ?_, differs (by decide), differs (by decide)⟩
    have hminus : b ≠ minus := differs (by decide)
    simp only [scalar, literal?_of_isDigit digit, if_neg hminus, if_pos digit]
    exact hnumber
  · exact ⟨minus, unsigned, rfl, number_append hunsigned hrest, by decide, by decide⟩

/-! ### Items -/

theorem go_value_congr (h : skipBlanks text = skipBlanks other) (fuel : Nat) (nests : List Nest) :
    go fuel .value nests text = go fuel .value nests other := by
  cases fuel with
  | zero => rfl
  | succ fuel => rw [go, go, h]

/-- Past what stands in front of the value of an item. -/
def enter (fuel : Nat) (nest : Nest) (outer : List Nest) (text : List UInt8) :
    Except Problem (List UInt8) :=
  match itemStart nest text with
  | .error problem => .error problem
  | .ok rest => go fuel .value (nest :: outer) rest

theorem enter_congr (h : skipBlanks text = skipBlanks other) (fuel : Nat) (outer : List Nest) :
    enter fuel nest outer text = enter fuel nest outer other := by
  cases nest with
  | array => exact go_value_congr h fuel (.array :: outer)
  | record => simp only [enter, itemStart, fieldName, h]

theorem enter_label {label : List UInt8} (h : Label nest label) (fuel : Nat) (outer : List Nest) :
    enter fuel nest outer (label ++ text) = go fuel .value (nest :: outer) text := by
  cases h with
  | array => rfl
  | @record name blanks between hname hblanks hbetween =>
    have colon_next := expect_blanks hbetween (show isBlank colon = false by decide) text
    have start : itemStart .record
        ((blanks ++ (quote :: (name ++ quote :: (between ++ [colon])))) ++ text) = .ok text := by
      simp only [itemStart, fieldName, List.append_assoc, List.cons_append, List.nil_append,
        skipBlanks_append hblanks, skipBlanks_cons (show isBlank quote = false by decide), if_true,
        skip_quoted hname, colon_next]
      rfl
    simp only [enter, start]

/-- An item starts with a byte that stops no other. -/
theorem exists_start {label blanks value : List UInt8} (hlabel : Label nest label)
    (hblanks : Blank blanks) (hvalue : Derives .value value) (text : List UInt8) :
    ∃ b later, skipBlanks (label ++ (blanks ++ (value ++ text))) = b :: later ∧
      isStop b = false := by
  cases hlabel with
  | array =>
    obtain ⟨b, later, rfl, hb⟩ := hvalue.starts
    refine ⟨b, later ++ text, ?_, hb⟩
    rw [List.nil_append, skipBlanks_append hblanks]
    exact skipBlanks_cons (not_isBlank_of_not_isStop hb)
  | @record name front between hname hfront hbetween =>
    refine ⟨quote, name ++ quote :: (between ++ [colon]) ++ (blanks ++ (value ++ text)), ?_,
      by decide⟩
    rw [List.append_assoc, skipBlanks_append hfront]
    exact skipBlanks_cons (by decide)

theorem go_item {first : Bool} {separator label blanks value : List UInt8}
    (hseparator : Separator first separator) (hlabel : Label nest label) (hblanks : Blank blanks)
    (hvalue : Derives .value value) (fuel : Nat) (outer : List Nest) (text : List UInt8) :
    go (fuel + 1) (.item first) (nest :: outer)
        (separator ++ (label ++ (blanks ++ (value ++ text)))) =
      go fuel .value (nest :: outer) (blanks ++ (value ++ text)) := by
  obtain ⟨front, hfront, rfl⟩ := hseparator
  obtain ⟨b, later, hskip, hb⟩ := exists_start hlabel hblanks hvalue text
  have stops : isStop nest.close = true := by cases nest <;> decide
  have comma_close : comma ≠ nest.close := by cases nest <;> decide
  rw [← enter_label hlabel]
  cases first with
  | true =>
    have hne : b ≠ nest.close := by
      rintro rfl
      rw [stops] at hb
      cases hb
    rw [if_pos rfl, go, skipBlanks_append hfront, hskip]
    simp only [if_neg hne, if_true]
    have same : skipBlanks (b :: later) = skipBlanks (label ++ (blanks ++ (value ++ text))) := by
      rw [hskip, skipBlanks_cons (not_isBlank_of_not_isStop hb)]
    exact enter_congr same fuel outer
  | false =>
    rw [if_neg (by decide), go, List.append_assoc, skipBlanks_append hfront, List.cons_append,
      skipBlanks_cons (by decide)]
    simp only [if_neg comma_close, Bool.false_eq_true, if_false, if_true]
    rfl

theorem go_close {first : Bool} {blanks : List UInt8} (hblanks : Blank blanks) (fuel : Nat)
    (outer : List Nest) (text : List UInt8) :
    go (fuel + 1) (.item first) (nest :: outer) (blanks ++ [nest.close] ++ text) =
      go fuel (.item false) outer text := by
  have blank : isBlank nest.close = false := by cases nest <;> decide
  rw [go, List.append_assoc, skipBlanks_append hblanks, List.cons_append, skipBlanks_cons blank]
  simp only [if_true]
  rfl

/-! ### Whole values -/

/-- A phrase is gone past in at most two steps a byte, whatever containers are open around it. -/
def Passes : Phrase → List UInt8 → Prop
  | .value, text => ∃ steps, steps < 2 * text.length ∧
      ∀ fuel nests blanks rest, Blank blanks → Stops rest →
        go (fuel + steps) .value nests (blanks ++ (text ++ rest)) = go fuel (.item false) nests rest
  | .rest nest first, text => ∃ steps, steps ≤ 2 * text.length ∧
      ∀ fuel outer rest,
        go (fuel + steps) (.item first) (nest :: outer) (text ++ rest) =
          go fuel (.item false) outer rest

theorem passes_scalar (h : ∀ rest, Stops rest → ∃ b later, text = b :: later ∧
      scalar b (later ++ rest) = .ok rest ∧ b ≠ openArray ∧ b ≠ openRecord)
    (starts : ∃ b later, text = b :: later ∧ isStop b = false) : Passes .value text := by
  obtain ⟨b, later, rfl, hb⟩ := starts
  refine ⟨1, by simp; omega, fun fuel nests blanks rest hblanks hrest => ?_⟩
  obtain ⟨_, _, ⟨⟩, hscalar, harray, hrecord⟩ := h rest hrest
  rw [go, skipBlanks_append hblanks, List.cons_append,
    skipBlanks_cons (not_isBlank_of_not_isStop hb)]
  simp only [harray, hrecord, if_false, hscalar]

theorem stops_rest {first : Bool} (h : Derives (.rest nest first) text) (hfirst : first = false) :
    Stops (text ++ rest) := by
  cases h with
  | close nest first hblanks =>
    rw [List.append_assoc]
    exact stops_blanks hblanks (by cases nest <;> decide)
  | item hseparator hlabel hblanks hvalue hlater =>
    obtain ⟨blanks, hblanks, rfl⟩ := hseparator
    rw [hfirst, if_neg (by decide), List.append_assoc, List.append_assoc]
    exact stops_blanks hblanks (by decide)

theorem passes_of_derives {phrase : Phrase} (h : Derives phrase text) : Passes phrase text := by
  induction h with
  | word h => exact passes_scalar (fun rest _ => scalar_word h rest) (Derives.word h).starts
  | number h => exact passes_scalar (fun _ => scalar_number h) (Derives.number h).starts
  | @string body h =>
    refine passes_scalar (fun rest _ => ⟨quote, _, rfl, ?_, by decide, by decide⟩)
      (Derives.string h).starts
    rw [List.append_assoc]
    exact skip_quoted h rest
  | @container nest inner h ih =>
    obtain ⟨steps, hsteps, hgo⟩ := ih
    refine ⟨steps + 1, by simp only [List.length_cons]; omega, ?_⟩
    intro fuel nests blanks rest hblanks hrest
    have blank : isBlank (opening nest) = false := by cases nest <;> decide
    rw [← Nat.add_assoc, go, skipBlanks_append hblanks, List.cons_append, skipBlanks_cons blank]
    cases nest with
    | array => exact hgo fuel nests rest
    | record => exact hgo fuel nests rest
  | close nest first hblanks =>
    refine ⟨1, by simp; omega, fun fuel outer rest => go_close hblanks fuel outer rest⟩
  | @item nest first separator label blanks value later hseparator hlabel hblanks hvalue hlater
      ihvalue ihlater =>
    obtain ⟨steps, hsteps, hgo⟩ := ihvalue
    obtain ⟨steps', hsteps', hgo'⟩ := ihlater
    refine ⟨steps' + steps + 1, by simp only [List.length_append]; omega, ?_⟩
    intro fuel outer rest
    rw [← Nat.add_assoc, ← Nat.add_assoc]
    simp only [List.append_assoc]
    rw [go_item hseparator hlabel hblanks hvalue, hgo _ _ _ _ hblanks (stops_rest hlater rfl), hgo']

end Skip

/-- A value of any depth is passed over. -/
theorem skipValue_of_derives {text blanks rest : List UInt8} (h : Derives .value text)
    (hblanks : Blank blanks) (hrest : Stops rest) :
    skipValue (blanks ++ (text ++ rest)) = .ok ((), rest) := by
  obtain ⟨steps, hsteps, hgo⟩ := Skip.passes_of_derives h
  obtain ⟨fuel, hfuel⟩ : ∃ fuel,
      2 * (blanks ++ (text ++ rest)).length + 2 = (fuel + 1) + steps := by
    refine ⟨2 * (blanks ++ (text ++ rest)).length + 1 - steps, ?_⟩
    simp only [List.length_append]
    omega
  rw [skipValue, hfuel, hgo _ _ _ _ hblanks hrest, Skip.go]

end Chip8.Json
