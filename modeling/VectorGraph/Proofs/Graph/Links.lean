import VectorGraph.Graph.Record

/-! The places of edges within a list of edges: what stays and what changes when one is cut out of the list
or put at its end. -/
namespace VectorGraph

def Ends.of (l : List EdgeId) : Ends := ⟨l.head?, l.getLast?⟩

/-- The edges just before and just after one of a list. -/
def Links.within (l : List EdgeId) (e : EdgeId) : Links :=
  ⟨(l.takeWhile (· != e)).getLast?, (l.dropWhile (· != e)).tail.head?⟩

variable {xs ys : List EdgeId} {e f : EdgeId}

theorem Links.within_split (apart : e ∉ xs) :
    Links.within (xs ++ e :: ys) e = ⟨xs.getLast?, ys.head?⟩ := by
  have before : ∀ x ∈ xs, (x != e) = true := by
    intro x member
    simp only [bne_iff_ne]
    rintro rfl
    exact apart member
  simp [within, List.takeWhile_append_of_pos before, List.dropWhile_append_of_pos before]

theorem head?_ne_of_not_mem (apart : f ∉ xs) : xs.head? ≠ some f := fun first => apart (List.mem_of_head? first)

theorem getLast?_ne_of_not_mem (apart : f ∉ xs) : xs.getLast? ≠ some f :=
  fun last => apart (List.mem_of_getLast? last)

theorem Links.apart_of_nodup (nodup : (xs ++ e :: ys).Nodup) : e ∉ xs ∧ e ∉ ys := by
  simp only [List.nodup_append, List.nodup_cons, List.mem_cons] at nodup
  exact ⟨fun member => nodup.2.2 e member e (.inl rfl) rfl, nodup.2.1.1⟩

/-- Leaving an edge out joins the parts of the list on its two sides. -/
theorem Links.filter_split (nodup : (xs ++ e :: ys).Nodup) : (xs ++ e :: ys).filter (· != e) = xs ++ ys := by
  have keep {zs : List EdgeId} (apart : e ∉ zs) : zs.filter (· != e) = zs := by
    apply List.filter_eq_self.mpr
    intro f member
    simp only [bne_iff_ne]
    rintro rfl
    exact apart member
  obtain ⟨before, after⟩ := apart_of_nodup nodup
  rw [List.filter_append, List.filter_cons_of_neg (by simp), keep before, keep after]

/-- What follows the end of one part is the start of the part that is joined to it. -/
theorem head?_joined (us : List EdgeId) {vs : List EdgeId} (apart : f ∉ vs) (ys zs : List EdgeId) :
    (vs ++ ys).head? = if (us ++ f :: vs).getLast? = some f then ys.head? else (vs ++ zs).head? := by
  cases vs with
  | nil => simp
  | cons v vs =>
    have other : (us ++ f :: v :: vs).getLast? ≠ some f := by
      simpa using getLast?_ne_of_not_mem apart
    rw [if_neg other]
    rfl

/-- What comes before the start of one part is the end of the part that is joined to it. -/
theorem getLast?_joined {us : List EdgeId} (vs : List EdgeId) (apart : f ∉ us) (ys zs : List EdgeId) :
    (ys ++ us).getLast? = if (us ++ f :: vs).head? = some f then ys.getLast? else (zs ++ us).getLast? := by
  cases us with
  | nil => simp
  | cons u us =>
    have other : (u :: us ++ f :: vs).head? ≠ some f := by
      have := List.ne_of_not_mem_cons apart
      simpa using Ne.symm this
    rw [if_neg other]
    simp [List.getLast?_cons]

/-- Cutting an edge out joins its two neighbours and leaves all other places alone. -/
theorem Links.within_cut (nodup : (xs ++ e :: ys).Nodup) (member : f ∈ xs ++ ys) :
    Links.within (xs ++ ys) f =
      ⟨if ys.head? = some f then xs.getLast? else (Links.within (xs ++ e :: ys) f).previous,
        if xs.getLast? = some f then ys.head? else (Links.within (xs ++ e :: ys) f).next⟩ := by
  rcases List.mem_append.mp member with left | right
  · obtain ⟨us, vs, rfl⟩ := List.append_of_mem left
    simp only [List.append_assoc, List.cons_append] at nodup ⊢
    have apart : f ∉ us ∧ f ∉ vs ∧ f ∉ ys := by
      simp only [List.nodup_append, List.nodup_cons, List.mem_append, List.mem_cons] at nodup
      grind
    rw [within_split apart.1, within_split apart.1, if_neg (head?_ne_of_not_mem apart.2.2),
      ← head?_joined us apart.2.1]
  · obtain ⟨us, vs, rfl⟩ := List.append_of_mem right
    have apart : f ∉ xs ∧ f ∉ us ∧ f ≠ e := by
      simp only [List.nodup_append, List.nodup_cons, List.mem_append, List.mem_cons] at nodup
      grind
    have regroup : xs ++ e :: (us ++ f :: vs) = (xs ++ [e] ++ us) ++ f :: vs := by simp
    rw [regroup, ← List.append_assoc, within_split (by simp [apart]), within_split (by simp [apart]),
      if_neg (getLast?_ne_of_not_mem apart.1), ← getLast?_joined vs apart.2.1]

/-- An edge put at the end follows the one that was last. -/
theorem Links.within_append (nodup : (xs ++ [e]).Nodup) (member : f ∈ xs) :
    Links.within (xs ++ [e]) f =
      ⟨(Links.within xs f).previous, if xs.getLast? = some f then some e else (Links.within xs f).next⟩ := by
  obtain ⟨us, vs, rfl⟩ := List.append_of_mem member
  have apart : f ∉ us ∧ f ∉ vs := by
    simp only [List.nodup_append, List.nodup_cons, List.mem_append, List.mem_cons] at nodup
    grind
  have next : (vs ++ [e]).head? = if (us ++ f :: vs).getLast? = some f then some e else vs.head? := by
    simpa using head?_joined us apart.2 [e] []
  rw [List.append_assoc, List.cons_append, within_split apart.1, within_split apart.1, next]

theorem Links.within_getElem {l : List EdgeId} (nodup : l.Nodup) {i : Nat} {e : EdgeId} (place : l[i]? = some e) :
    Links.within l e = ⟨if i = 0 then none else l[i - 1]?, l[i + 1]?⟩ := by
  obtain ⟨inside, rfl⟩ := List.getElem?_eq_some_iff.mp place
  have split : l.take i ++ l[i] :: l.drop (i + 1) = l := by simp
  have own : Links.within (l.take i ++ l[i] :: l.drop (i + 1)) l[i] = _ :=
    within_split (apart_of_nodup (split.symm ▸ nodup)).1
  rw [split] at own
  rw [own, List.head?_drop, List.getLast?_take, List.getElem?_eq_getElem (i := i - 1) (by omega)]
  rfl

end VectorGraph
