import Chip8.Proofs.Json.Codec

/-!
# Arrays read back

Parts with commas between them are read one after the other, if every part is read from in front of
a text that stops it.  Where the text ends too early, the part that is not all there uses it up, and
the look for the next one finds nothing (`Reader.next_torn`).  So arrays show where they end,
whether or not their items do:

    closed_array  : item.Faithful → (Codec.array item).Closed
    closed_vector : item.Faithful → (Codec.vector item n).Closed
-/

namespace Chip8.Json

open Reader

/-! ## Parts with commas between them -/

/-- Parts with commas between them, and a comma in front unless they are the first. -/
def chained : Bool → List (List UInt8) → List UInt8
  | _, [] => []
  | first, part :: parts => (if first then part else comma :: part) ++ chained false parts

theorem separated_eq_chained (parts : List (List UInt8)) :
    separated parts = chained true parts := by
  induction parts with
  | nil => rfl
  | cons part parts ih =>
    cases parts with
    | nil => simp [separated, chained]
    | cons next parts =>
      have hrest :
          separated (part :: next :: parts) = part ++ comma :: separated (next :: parts) := by
        simp [separated, List.intersperse]
      rw [hrest, ih]
      simp [chained]

theorem length_le_chained {parts : List (List UInt8)} (hparts : ∀ part ∈ parts, part ≠ []) :
    ∀ first, parts.length ≤ (chained first parts).length := by
  induction parts with
  | nil => simp
  | cons part parts ih =>
    intro first
    have hpart : 0 < part.length := List.length_pos_iff.mpr (hparts part (by simp))
    have hlater := ih (fun p hp => hparts p (by simp [hp])) false
    cases first with
    | true =>
      rw [chained, if_pos rfl, List.length_append, List.length_cons]
      omega
    | false =>
      rw [chained, if_neg (by decide), List.length_append, List.length_cons, List.length_cons]
      omega

/-- More parts start with a comma, so they stop the value before them. -/
theorem stops_chained {rest : List UInt8} (hrest : Stops rest) (parts : List (List UInt8)) :
    Stops (chained false parts ++ rest) := by
  cases parts with
  | nil => exact hrest
  | cons part parts => exact stops_cons (by decide)

namespace Reader

variable {close : UInt8}

/-- The next part is there to be read, its blanks left out. -/
theorem another_part {part later : List UInt8} {b : UInt8} (first : Bool)
    (hpart : skipBlanks part = b :: later) (hb : isStop b = false) (hclose : isStop close = true)
    (hcomma : close ≠ comma) (rest : List UInt8) :
    another close first ((if first then part else comma :: part) ++ rest) =
      .ok (true, b :: (later ++ rest)) := by
  have hne : b ≠ close := by
    rintro rfl
    exact absurd hclose (by rw [hb]; decide)
  have hpeek : peek (part ++ rest) = .ok (b, b :: (later ++ rest)) :=
    peek_of_skipBlanks (skipBlanks_append_right hpart rest)
  cases first with
  | true =>
    rw [if_pos rfl, another, bind_of_ok hpeek, if_neg hne]
    rfl
  | false =>
    have hstart : peek (comma :: (part ++ rest)) = .ok (comma, comma :: (part ++ rest)) :=
      peek_cons (by decide) _
    rw [if_neg (by decide), List.cons_append, another, bind_of_ok hstart, if_neg hcomma.symm]
    show (drop >>= _) _ = _
    rw [bind_of_ok (drop_cons comma _), bind_of_ok hpeek, if_neg hne]
    rfl

theorem another_close {text rest : List UInt8} (first : Bool)
    (htext : skipBlanks text = close :: rest) :
    another close first text = .ok (false, close :: rest) := by
  rw [another, bind_of_ok (peek_of_skipBlanks htext), if_pos rfl]
  rfl

/-- Where the text ends inside a part or the comma before it, either the part is missing or what is
there of it comes next. -/
theorem another_torn {part later : List UInt8} {b : UInt8} (first : Bool)
    (hpart : skipBlanks part = b :: later) (hb : isStop b = false) (hclose : isStop close = true)
    (hcomma : close ≠ comma) {front lost : List UInt8}
    (h : (if first then part else comma :: part) = front ++ lost) :
    another close first front = .error .truncated ∨
      ∃ more, b :: later = more ++ lost ∧ front ≠ [] ∧
        another close first front = .ok (true, more) := by
  -- What is there of the part itself is all blank or starts with its first byte.
  have begun : ∀ there, part = there ++ lost → peek there = .error .truncated ∨
      ∃ more, skipBlanks there = b :: more ∧ later = more ++ lost := by
    intro there hthere
    cases hskip : skipBlanks there with
    | nil =>
      left
      simp only [peek, hskip]
    | cons c more =>
      rw [hthere, skipBlanks_append_right hskip lost] at hpart
      cases hpart
      exact .inr ⟨more, rfl, rfl⟩
  cases first with
  | true =>
    rcases begun front h with missing | ⟨more, hskip, rfl⟩
    · exact .inl (bind_of_truncated missing)
    · have hnext := another_part true hskip hb hclose hcomma []
      rw [if_pos rfl, List.append_nil, List.append_nil] at hnext
      refine .inr ⟨b :: more, rfl, ?_, hnext⟩
      rintro rfl
      cases hskip
  | false =>
    obtain ⟨rfl, -⟩ | ⟨there, rfl, hthere⟩ := List.cons_eq_append_iff.1 h
    · exact .inl (another_nil close false)
    · rcases begun there hthere with missing | ⟨more, hskip, rfl⟩
      · left
        rw [another, bind_of_ok (peek_cons (by decide) there), if_neg hcomma.symm]
        show (drop >>= _) _ = _
        rw [bind_of_ok (drop_cons comma there)]
        exact bind_of_truncated missing
      · have hnext := another_part false hskip hb hclose hcomma []
        rw [if_neg (by decide), List.append_nil, List.append_nil] at hnext
        exact .inr ⟨b :: more, rfl, by simp, hnext⟩

section
variable {α β : Type} {x : Reader α} {k : α → Reader β} {e : Reader β}

/-- Where the text ends in a part that is to be read, or behind it, no more than that is needed of
what reads on. -/
theorem next_torn {part later rest : List UInt8} {b : UInt8} {a : α} (first : Bool)
    (hpart : skipBlanks part = b :: later) (hb : isStop b = false) (hclose : isStop close = true)
    (hcomma : close ≠ comma)
    (hread : ∀ more, Stops more → x (b :: (later ++ more)) = .ok (a, more))
    (hruns : ∀ more lost, b :: later = more ++ lost → lost ≠ [] → x.RunsOut more)
    (hrest : Stops rest) {front back : List UInt8}
    (h : (if first then part else comma :: part) ++ rest = front ++ back)
    (ended : front ≠ [] → ∀ a, k a [] = .error .truncated)
    (going : ∀ more, rest = more ++ back → more.length < front.length →
      k a more = .error .truncated) :
    (another close first >>= fun found => if found then x >>= k else e) front =
      .error .truncated := by
  rcases torn_append h with ⟨lost, some_lost, hin⟩ | ⟨more, rfl, rfl⟩
  · rcases another_torn first hpart hb hclose hcomma hin with
      missing | ⟨more, hmore, some_front, hnext⟩
    · exact bind_of_truncated missing
    · rw [bind_of_ok hnext, if_pos rfl]
      exact (hruns more lost hmore some_lost).bind (ended some_front)
  · have shorter : more.length < ((if first then part else comma :: part) ++ more).length := by
      have some_part : part ≠ [] := by
        rintro rfl
        cases hpart
      have := List.length_pos_iff.2 some_part
      cases first with
      | true =>
        rw [if_pos rfl, List.length_append]
        omega
      | false =>
        rw [if_neg (by decide), List.length_append, List.length_cons]
        omega
    rw [bind_of_ok (another_part first hpart hb hclose hcomma more), if_pos rfl,
      bind_of_ok (hread more hrest.of_append)]
    exact going more rfl shorter

end

end Reader

namespace Codec

/-! ## Arrays -/

variable {α β : Type} {c : Codec α}

theorem Faithful.write_ne_nil (hc : c.Faithful) (as : List α) :
    ∀ part ∈ as.map c.write, part ≠ [] := by
  intro part hpart
  obtain ⟨a, -, rfl⟩ := List.mem_map.mp hpart
  obtain ⟨b, text, ha, -⟩ := hc.starts a
  simp [ha]

/-- An item that comes next in an array is found there. -/
theorem Faithful.another_item (hc : c.Faithful) (first : Bool) (a : α) (later : List UInt8) :
    another closeArray first ((if first then c.write a else comma :: c.write a) ++ later) =
      .ok (true, c.write a ++ later) := by
  obtain ⟨b, text, ha, hb⟩ := hc.starts a
  have hpart : skipBlanks (c.write a) = b :: text := by
    rw [ha]
    exact skipBlanks_cons (not_isBlank_of_not_isStop hb)
  rw [another_part first hpart hb (by decide) (by decide) later, ha, List.cons_append]

theorem another_closeArray (first : Bool) (rest : List UInt8) :
    another closeArray first (closeArray :: rest) = .ok (false, closeArray :: rest) :=
  another_close first (skipBlanks_cons (by decide))

theorem stops_closeArray (rest : List UInt8) : Stops (closeArray :: rest) :=
  stops_cons (by decide)

theorem items_chained (hc : c.Faithful) (as : List α) (rest : List UInt8) :
    ∀ fuel first done, as.length < fuel →
      Reader.items c.read fuel first done
          (chained first (as.map c.write) ++ closeArray :: rest) =
        .ok (done ++ as.toArray, rest) := by
  induction as with
  | nil =>
    intro fuel first done hfuel
    obtain ⟨fuel, rfl⟩ := Nat.exists_eq_add_one_of_ne_zero (Nat.ne_zero_of_lt hfuel)
    have hend := another_closeArray first rest
    rw [List.map_nil, chained, List.nil_append, Reader.items, bind_of_ok hend, Array.append_empty]
    rfl
  | cons a as ih =>
    intro fuel first done hfuel
    obtain ⟨fuel, rfl⟩ := Nat.exists_eq_add_one_of_ne_zero (Nat.ne_zero_of_lt hfuel)
    have hread := hc.read_write a _ (stops_chained (stops_closeArray rest) (as.map c.write))
    rw [List.length_cons, Nat.add_lt_add_iff_right] at hfuel
    rw [List.map_cons, chained, List.append_assoc, Reader.items,
      bind_of_ok (hc.another_item first a _), if_pos rfl, bind_of_ok hread,
      ih fuel false (done.push a) hfuel]
    simp

theorem exactItems_chained (hc : c.Faithful) (as : List α) (rest : List UInt8) :
    ∀ first, Reader.exactItems c.read as.length first
        (chained first (as.map c.write) ++ closeArray :: rest) = .ok (as, rest) := by
  induction as with
  | nil =>
    intro first
    have hend : endArray (closeArray :: rest) = .ok ((), rest) := expect_cons (by decide) rest
    rw [List.map_nil, chained, List.nil_append, List.length_nil, Reader.exactItems,
      bind_of_ok hend]
    rfl
  | cons a as ih =>
    intro first
    have hread := hc.read_write a _ (stops_chained (stops_closeArray rest) (as.map c.write))
    rw [List.map_cons, chained, List.append_assoc, List.length_cons, Reader.exactItems,
      bind_of_ok (hc.another_item first a _), if_pos rfl, bind_of_ok hread, bind_of_ok (ih false)]
    rfl

/-- Where the text ends in an item or behind it, no more than that is needed of what reads on. -/
theorem Faithful.next_torn (hc : c.Faithful) (first : Bool) (a : α) {k : α → Reader β}
    {e : Reader β} {rest front back : List UInt8} (hrest : Stops rest)
    (h : (if first then c.write a else comma :: c.write a) ++ rest = front ++ back)
    (ended : front ≠ [] → ∀ a, k a [] = .error .truncated)
    (going : ∀ more, rest = more ++ back → more.length < front.length →
      k a more = .error .truncated) :
    (another closeArray first >>= fun found => if found then c.read >>= k else e) front =
      .error .truncated := by
  obtain ⟨b, text, ha, hb⟩ := hc.starts a
  have hpart : skipBlanks (c.write a) = b :: text := by
    rw [ha]
    exact skipBlanks_cons (not_isBlank_of_not_isStop hb)
  have hread : ∀ more, Stops more → c.read (b :: (text ++ more)) = .ok (a, more) := by
    intro more hmore
    rw [← List.cons_append, ← ha]
    exact hc.read_write a more hmore
  apply Reader.next_torn first hpart hb (by decide) (by decide) hread _ hrest h ended going
  rw [← ha]
  exact hc.runs_out a

theorem items_torn (hc : c.Faithful) (as : List α) {back : List UInt8} (torn : back ≠ []) :
    ∀ fuel first done front, front.length < fuel →
      chained first (as.map c.write) ++ [closeArray] = front ++ back →
        Reader.items c.read fuel first done front = .error .truncated := by
  have ended : ∀ fuel first done, 0 < fuel →
      Reader.items c.read fuel first done [] = .error .truncated := by
    intro fuel first done hfuel
    obtain ⟨fuel, rfl⟩ := Nat.exists_eq_add_one_of_ne_zero (Nat.ne_of_gt hfuel)
    exact bind_of_truncated (another_nil _ _)
  induction as with
  | nil =>
    intro fuel first done front hfuel h
    rw [torn_singleton h torn] at hfuel ⊢
    exact ended fuel first done hfuel
  | cons a as ih =>
    intro fuel first done front hfuel h
    obtain ⟨fuel, rfl⟩ := Nat.exists_eq_add_one_of_ne_zero (Nat.ne_zero_of_lt hfuel)
    rw [List.map_cons, chained, List.append_assoc] at h
    apply hc.next_torn first a (stops_chained (stops_closeArray []) _) h
    · intro some_front a
      have := List.length_pos_iff.2 some_front
      exact ended fuel false _ (by omega)
    · intro more hmore shorter
      exact ih fuel false _ more (by omega) hmore

theorem exactItems_torn (hc : c.Faithful) (as : List α) {back : List UInt8} (torn : back ≠ []) :
    ∀ first front, chained first (as.map c.write) ++ [closeArray] = front ++ back →
      Reader.exactItems c.read as.length first front = .error .truncated := by
  have ended : ∀ count first, Reader.exactItems c.read count first [] = .error .truncated := by
    intro count first
    cases count <;> exact bind_of_truncated rfl
  induction as with
  | nil =>
    intro first front h
    rw [torn_singleton h torn]
    exact ended 0 first
  | cons a as ih =>
    intro first front h
    rw [List.map_cons, chained, List.append_assoc] at h
    apply hc.next_torn first a (stops_chained (stops_closeArray []) _) h
    · intro _ a
      exact bind_of_truncated (ended as.length false)
    · intro more hmore _
      exact bind_of_truncated (ih false more hmore)

theorem array_write (as : Array α) : (array c).write as =
    openArray :: (chained true (as.toList.map c.write) ++ [closeArray]) := by
  simp [array, separated_eq_chained]

theorem closed_array (hc : c.Faithful) : (array c).Closed where
  read_append as rest := by
    have hfuel : as.toList.length <
        (chained true (as.toList.map c.write) ++ closeArray :: rest).length + 1 := by
      have hle := length_le_chained (hc.write_ne_nil as.toList) true
      simp only [List.length_map] at hle
      simp only [List.length_append, List.length_cons]
      omega
    have hitems := items_chained hc as.toList rest _ true #[] hfuel
    rw [array_write, List.cons_append, List.append_assoc]
    show Reader.array c.read (openArray :: (_ ++ closeArray :: rest)) = _
    unfold Reader.array
    rw [bind_of_ok (peek_cons (by decide) _), if_pos rfl, bind_of_ok (drop_cons openArray _),
      bind_of_ok (get_apply _), hitems]
    simp
  torn as front back h torn := by
    rw [array_write] at h
    obtain ⟨rfl, -⟩ | ⟨front, rfl, hfront⟩ := List.cons_eq_append_iff.1 h
    · exact bind_of_truncated peek_nil
    · show Reader.array c.read _ = _
      unfold Reader.array
      rw [bind_of_ok (peek_cons (by decide) _), if_pos rfl, bind_of_ok (drop_cons openArray _),
        bind_of_ok (get_apply _)]
      exact items_torn hc as.toList torn _ true #[] front (Nat.lt_succ_self _) hfront

theorem faithful_array (hc : c.Faithful) : (array c).Faithful :=
  (closed_array hc).faithful (fun _ => ⟨openArray, _, rfl, by decide⟩)
    fun _ _ hb => peek_bind_blank hb _

theorem closed_vector (hc : c.Faithful) (n : Nat) : (vector c n).Closed where
  read_append as rest := by
    have hlength : as.toArray.toList.length = n := by simp
    have hitems := exactItems_chained hc as.toArray.toList rest true
    rw [hlength] at hitems
    show Reader.vector c.read n ((array c).write as.toArray ++ rest) = _
    rw [array_write, List.cons_append, List.append_assoc]
    show Reader.vector c.read n (openArray :: (_ ++ closeArray :: rest)) = _
    unfold Reader.vector
    rw [bind_of_ok (peek_cons (by decide) _), if_pos rfl, bind_of_ok (drop_cons openArray _),
      bind_of_ok hitems, dif_pos hlength]
    rfl
  torn as front back h torn := by
    replace h : (array c).write as.toArray = front ++ back := h
    rw [array_write] at h
    obtain ⟨rfl, -⟩ | ⟨front, rfl, hfront⟩ := List.cons_eq_append_iff.1 h
    · exact bind_of_truncated peek_nil
    · have hlength : as.toArray.toList.length = n := by simp
      have hitems := exactItems_torn hc as.toArray.toList torn true front hfront
      rw [hlength] at hitems
      show Reader.vector c.read n _ = _
      unfold Reader.vector
      rw [bind_of_ok (peek_cons (by decide) _), if_pos rfl, bind_of_ok (drop_cons openArray _)]
      exact bind_of_truncated hitems

theorem faithful_vector (hc : c.Faithful) (n : Nat) : (vector c n).Faithful :=
  (closed_vector hc n).faithful (fun _ => ⟨openArray, _, rfl, by decide⟩)
    fun _ _ hb => peek_bind_blank hb _

end Codec

end Chip8.Json
