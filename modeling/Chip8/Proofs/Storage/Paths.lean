import Chip8.Proofs.Storage.Disk

/-!
# Paths made of names

A path told from its names has just these names, and as many bytes as they have with a slash each.
The names of a path are shorter than its text, so what is above a path that may be followed may be
followed as well:

    p.above = name :: others → Disk.namesOn p = .ok p.names →
      Disk.namesOn (ofNames (name :: others).reverse) = .ok (name :: others).reverse
                                                                            (namesOn_above)
-/

namespace Chip8

namespace Path

/-! ## Sizes of names -/

/-- The bytes of names with a slash each. -/
def weight : List String → Nat
  | [] => 0
  | name :: later => name.utf8ByteSize + 1 + weight later

theorem weight_append (front back : List String) :
    weight (front ++ back) = weight front + weight back := by
  induction front with
  | nil => simp [weight]
  | cons name later ih =>
    rw [List.cons_append, weight, weight, ih]
    omega

theorem weight_le {names others : List String} (h : names.Sublist others) :
    weight names ≤ weight others := by
  induction h with
  | slnil => exact Nat.le_refl _
  | cons name h ih =>
    simp only [weight] at ih ⊢
    omega
  | cons_cons name h ih =>
    simp only [weight] at ih ⊢
    omega

theorem utf8ByteSize_ofList_cons (c : Char) (cs : List Char) :
    (String.ofList (c :: cs)).utf8ByteSize = c.utf8Size + (String.ofList cs).utf8ByteSize := by
  rw [String.ofList_cons, String.utf8ByteSize_append, String.utf8ByteSize_singleton]

/-- The pieces of a text are all of it but its slashes. -/
theorem weight_pieces (cs : List Char) :
    weight ((pieces cs).map String.ofList) = (String.ofList cs).utf8ByteSize + 1 := by
  induction cs with
  | nil => rfl
  | cons c later ih =>
    rw [utf8ByteSize_ofList_cons, pieces]
    split
    · next slash =>
      subst slash
      have empty : (String.ofList []).utf8ByteSize = 0 := rfl
      have single : '/'.utf8Size = 1 := rfl
      simp only [weight, List.map_cons] at ih ⊢
      omega
    · obtain ⟨piece, others, h⟩ := List.exists_cons_of_ne_nil (pieces_ne_nil later)
      rw [h] at ih ⊢
      simp only [weight, List.map_cons, utf8ByteSize_ofList_cons] at ih ⊢
      omega

theorem weight_names_le (p : Path) : weight p.names ≤ p.text.utf8ByteSize + 1 := by
  have hpieces := weight_pieces p.text.toList
  rw [String.ofList_toList] at hpieces
  rw [← hpieces]
  exact weight_le (List.Sublist.map _ List.filter_sublist)

/-! ## Paths from names -/

theorem mem_pieces {cs piece : List Char} (h : piece ∈ pieces cs) :
    '/' ∉ piece ∧ ∀ c ∈ piece, c ∈ cs := by
  induction cs generalizing piece with
  | nil =>
    rw [pieces, List.mem_singleton] at h
    subst h
    simp
  | cons c later ih =>
    rw [pieces] at h
    split at h
    · next slash =>
      rcases List.mem_cons.1 h with rfl | h
      · simp
      · exact ⟨(ih h).1, fun b hb => List.mem_cons_of_mem c ((ih h).2 b hb)⟩
    · next other =>
      obtain ⟨first, others, hpieces⟩ := List.exists_cons_of_ne_nil (pieces_ne_nil later)
      rw [hpieces] at h ih
      rcases List.mem_cons.1 h with rfl | h
      · have hfirst := ih List.mem_cons_self
        refine ⟨?_, ?_⟩
        · rw [List.mem_cons, not_or]
          exact ⟨fun e => other e.symm, hfirst.1⟩
        · intro b hb
          rcases List.mem_cons.1 hb with rfl | hb
          · exact List.mem_cons_self
          · exact List.mem_cons_of_mem c (hfirst.2 b hb)
      · have hothers := ih (List.mem_cons_of_mem first h)
        exact ⟨hothers.1, fun b hb => List.mem_cons_of_mem c (hothers.2 b hb)⟩

theorem mem_names {p : Path} {name : String} (h : name ∈ p.names) :
    name ≠ "" ∧ '/' ∉ name.toList ∧ ∀ c ∈ name.toList, c ∈ p.text.toList := by
  obtain ⟨piece, hpiece, rfl⟩ := List.mem_map.1 h
  obtain ⟨hmem, some_piece⟩ := List.mem_filter.1 hpiece
  rw [String.toList_ofList]
  refine ⟨?_, mem_pieces hmem⟩
  intro empty
  have := congrArg String.toList empty
  rw [String.toList_ofList] at this
  simp [this] at some_piece

theorem toList_ofNames (names : List String) : (ofNames names).text.toList =
    '/' :: List.intercalate ['/'] (names.map String.toList) := by
  simp [ofNames]

theorem pieces_intercalate {parts : List (List Char)} (some_parts : parts ≠ [])
    (h : ∀ part ∈ parts, '/' ∉ part) : pieces (List.intercalate ['/'] parts) = parts := by
  induction parts with
  | nil => exact absurd rfl some_parts
  | cons part others ih =>
    rw [List.forall_mem_cons] at h
    cases others with
    | nil => simpa using pieces_of_not_mem h.1
    | cons next others =>
      rw [List.intercalate_cons_cons, List.append_assoc, List.singleton_append,
        pieces_append_slash, pieces_of_not_mem h.1, ih (by simp) h.2]
      rfl

/-- Names between slashes are the names of the path. -/
theorem names_ofNames {names : List String} (h : ∀ name ∈ names, name ≠ "" ∧ '/' ∉ name.toList) :
    (ofNames names).names = names := by
  have back : names.map (String.ofList ∘ String.toList) = names := by
    simp [Function.comp_def]
  unfold Path.names
  rw [toList_ofNames, pieces, if_pos rfl]
  by_cases none : names = []
  · subst none
    rfl
  · rw [pieces_intercalate (by simpa using none)
      (by simpa using fun name hname => (h name hname).2)]
    have kept : (names.map String.toList).filter (· ≠ []) = names.map String.toList := by
      rw [List.filter_eq_self]
      intro part hpart
      obtain ⟨name, hname, rfl⟩ := List.mem_map.1 hpart
      simpa using (h name hname).1
    rw [List.filter_cons_of_neg (by simp), kept, List.map_map, back]

theorem mem_intercalate {parts : List (List Char)} {c : Char}
    (hc : c ∈ List.intercalate ['/'] parts) : c = '/' ∨ ∃ part ∈ parts, c ∈ part := by
  induction parts with
  | nil => simp at hc
  | cons part others ih =>
    cases others with
    | nil => exact .inr ⟨part, by simp, by simpa using hc⟩
    | cons next others =>
      rw [List.intercalate_cons_cons, List.append_assoc, List.mem_append, List.mem_append] at hc
      rcases hc with first | slash | later
      · exact .inr ⟨part, by simp, first⟩
      · exact .inl (List.mem_singleton.1 slash)
      · rcases ih later with slash | ⟨other, hother, inside⟩
        · exact .inl slash
        · exact .inr ⟨other, List.mem_cons_of_mem part hother, inside⟩

theorem mem_toList_ofNames {names : List String} {c : Char}
    (hc : c ∈ (ofNames names).text.toList) : c = '/' ∨ ∃ name ∈ names, c ∈ name.toList := by
  rw [toList_ofNames, List.mem_cons] at hc
  rcases hc with slash | hc
  · exact .inl slash
  · rcases mem_intercalate hc with slash | ⟨part, hpart, inside⟩
    · exact .inl slash
    · obtain ⟨name, hname, rfl⟩ := List.mem_map.1 hpart
      exact .inr ⟨name, hname, inside⟩

theorem utf8ByteSize_ofNames {names : List String} (some_names : names ≠ []) :
    (ofNames names).text.utf8ByteSize = weight names := by
  have slash : ("/" : String).utf8ByteSize = 1 := rfl
  rw [ofNames, String.utf8ByteSize_append, slash]
  induction names with
  | nil => exact absurd rfl some_names
  | cons name others ih =>
    cases others with
    | nil => simp [weight, Nat.add_comm]
    | cons next others =>
      have hothers := ih (by simp)
      rw [String.intercalate_cons_cons, String.utf8ByteSize_append, String.utf8ByteSize_append,
        slash]
      simp only [weight] at hothers ⊢
      omega

/-- The names above the last one on a path, the nearest first. -/
def above (p : Path) : List String := (p.names.filter (· ≠ ".")).reverse.tail

theorem exists_names_of_above {p : Path} {name : String} {others : List String}
    (h : p.above = name :: others) :
    ∃ last, p.names.filter (· ≠ ".") = (name :: others).reverse ++ [last] := by
  unfold above at h
  obtain ⟨last, hlast⟩ : ∃ last, (p.names.filter (· ≠ ".")).reverse = last :: name :: others := by
    cases hrev : (p.names.filter (· ≠ ".")).reverse with
    | nil =>
      rw [hrev] at h
      cases h
    | cons last later =>
      rw [hrev] at h
      exact ⟨last, congrArg (last :: ·) h⟩
  refine ⟨last, ?_⟩
  rw [← List.reverse_inj, hlast]
  simp

section
variable {p : Path} {name : String} {others : List String} (h : p.above = name :: others)
include h

theorem mem_above {n : String} (hn : n ∈ (name :: others).reverse) : n ∈ p.names ∧ n ≠ "." := by
  obtain ⟨last, hlast⟩ := exists_names_of_above h
  have kept : n ∈ p.names.filter (· ≠ ".") := by
    rw [hlast]
    exact List.mem_append_left _ hn
  simpa using List.mem_filter.1 kept

theorem names_above : (ofNames (name :: others).reverse).names = (name :: others).reverse :=
  names_ofNames fun _ hn =>
    have hname := mem_names (mem_above h hn).1
    ⟨hname.1, hname.2.1⟩

theorem above_above : (ofNames (name :: others).reverse).above = others := by
  have kept : (name :: others).reverse.filter (· ≠ ".") = (name :: others).reverse := by
    rw [List.filter_eq_self]
    intro n hn
    simpa using (mem_above h hn).2
  rw [above, names_above h, kept, List.reverse_reverse, List.tail_cons]

/-- A path that may be followed does not get longer when its last name is left out. -/
theorem namesOn_above (hp : Disk.namesOn p = .ok p.names) :
    Disk.namesOn (ofNames (name :: others).reverse) = .ok (name :: others).reverse := by
  unfold Disk.namesOn at hp
  split at hp
  · cases hp
  next nul =>
  split at hp
  · cases hp
  next long =>
  have nul' : (ofNames (name :: others).reverse).text.toList.contains (Char.ofNat 0) = false := by
    rw [List.contains_eq_mem, decide_eq_false_iff_not]
    intro found
    rcases mem_toList_ofNames found with slash | ⟨n, hn, found⟩
    · exact absurd slash (by decide)
    · have inside := (mem_names (mem_above h hn).1).2.2 _ found
      exact nul (by simpa using inside)
  have size : (ofNames (name :: others).reverse).text.utf8ByteSize ≤ Disk.maxPath := by
    obtain ⟨last, hlast⟩ := exists_names_of_above h
    have hkept := weight_le (List.filter_sublist (p := (· ≠ ".")) (l := p.names))
    have hnames := weight_names_le p
    rw [hlast, weight_append] at hkept
    have hsingle : 1 ≤ weight [last] := by simp [weight]
    rw [utf8ByteSize_ofNames (by simp)]
    omega
  rw [Disk.namesOn, nul', if_neg (by simp), if_neg (Nat.not_lt.2 size), names_above h]

end

/-! ## Paths joined -/

/-- A name under the path of a directory that is told with a slash at its end. -/
theorem join_join (directory : Path) (root : String) {name : String}
    (hname : '/' ∉ name.toList) :
    (directory.join (root ++ "/")).join name = directory.join (root ++ "/" ++ name) := by
  have start : name.toList.head? ≠ some '/' := fun h => hname (List.mem_of_mem_head? h)
  have head : (root ++ "/" ++ name).toList.head? = (root ++ "/").toList.head? := by
    simp only [String.toList_append]
    cases root.toList <;> simp
  have ends (front : String) : endsInSlash ⟨front ++ "/"⟩ = true := by
    simp [endsInSlash]
  have slash : (directory.join (root ++ "/")).endsInSlash = true := by
    unfold join
    split
    · exact ends root
    · split
      · rw [← String.append_assoc]
        exact ends _
      · rw [← String.append_assoc]
        exact ends _
  rw [join, if_neg start, if_pos slash]
  unfold join
  rw [head]
  split
  · rfl
  · split <;> simp only [String.append_assoc]

end Path

end Chip8
