import VectorGraph.Proofs.Json.Grammar

/-!
Readers that take whole values. Where such a reader takes anything of a text that the grammar derives, it takes
the value that stands first and nothing after it, so what comes next in the text is read as what it is.
-/
namespace VectorGraph.Json

open Reader

variable {α β : Type}

namespace Reader

variable {cs rest rest' : List Char}

theorem bind_eq_ok {r : Reader α} {f : α → Reader β} {p : β × List Char} (read : (r >>= f) cs = .ok p) :
    ∃ v rest, r cs = .ok (v, rest) ∧ f v rest = .ok p := by
  cases taken : r cs with
  | error e =>
    have stopped : (r >>= f) cs = .error e := by
      show (r cs >>= fun p => f p.1 p.2) = _
      rw [taken]
      rfl
    simp [stopped] at read
  | ok q => exact ⟨q.1, q.2, rfl, (bind_ok taken).symm.trans read⟩

theorem mismatch_bind (m : Mismatch) (f : α → Reader β) (cs : List Char) :
    ((mismatch m : Reader α) >>= f) cs = .error (.mismatch m) :=
  rfl

theorem bind_refuses {r : Reader α} {f : α → Reader β} (refuses : ∀ v rest, ∃ e, f v rest = .error e) (cs : List Char) :
    ∃ e, (r >>= f) cs = .error e := by
  cases read : (r >>= f) cs with
  | error e => exact ⟨e, rfl⟩
  | ok p =>
    obtain ⟨v, rest, -, later⟩ := bind_eq_ok read
    obtain ⟨e, refused⟩ := refuses v rest
    simp [refused] at later

theorem refuse_refuses (expected : String) (cs : List Char) : ∃ e, (refuse expected : Reader α) cs = .error e := by
  have wrong (found : Found) (cs : List Char) :
      ∃ e, (mismatch (.wrongType found expected) : Reader α) cs = .error e := ⟨_, rfl⟩
  unfold refuse
  refine bind_refuses (fun next cs => ?_) cs
  -- by the character that comes next: a word, a string and a number are read before they are refused
  split
  · exact bind_refuses (fun _ => wrong _) cs
  · exact bind_refuses (fun _ => wrong _) cs
  · exact bind_refuses (fun _ => wrong _) cs
  · exact bind_refuses (fun _ => wrong _) cs
  · exact wrong _ cs
  · exact wrong _ cs
  · split
    · exact bind_refuses (fun _ => wrong _) cs
    · exact ⟨_, rfl⟩
  · exact ⟨_, rfl⟩

end Reader

/-- A reader that passes over blanks, and takes a value whole where it takes one at all. -/
structure Regular (r : Reader α) : Prop where
  spaced : Spaced r
  whole : ∀ t rest x rest', Derives .value t → Stops rest → r (t ++ rest) = .ok (x, rest') → rest' = rest

theorem Regular.map {r : Reader α} (regular : Regular r) (f : α → β) : Regular (do return f (← r)) where
  spaced := regular.spaced.bind _
  whole t rest x rest' value ends read := by
    obtain ⟨y, rest'', taken, returned⟩ := bind_eq_ok read
    rw [pure_apply] at returned
    cases returned
    exact regular.whole _ _ _ _ value ends taken

variable {t rest rest' : List Char}

/-- The first character of a value tells what the value is. -/
theorem Derives.first_cases {c : Char} {cs : List Char} (value : Derives .value (c :: cs)) :
    (c ∈ ['n', 't', 'f'] ∧ ∃ w ∈ ["null", "true", "false"], c :: cs = w.toList) ∨
    (startsNumber c = true ∧ IsNumber (c :: cs)) ∨
    c = '"' ∨
    (c = '[' ∧ ∃ vs t, cs = t ++ [']'] ∧ Derives (.items vs) t) ∨
    (c = '\x7b' ∧ ∃ ms t, cs = t ++ ['\x7d'] ∧ Derives (.members ms) t) := by
  generalize shape : c :: cs = t at value
  cases value with
  | @word w known =>
    refine .inl ⟨?_, w, known, rfl⟩
    simp only [List.mem_cons, List.not_mem_nil, or_false] at known
    rcases known with rfl | rfl | rfl <;> cases shape <;> decide
  | number number =>
    obtain ⟨d, ds, rfl, starts⟩ := number.starts
    cases shape
    exact .inr (.inl ⟨starts, number⟩)
  | string literal => exact .inr (.inr (.inl (List.cons.inj shape).1))
  | array items =>
    cases shape
    exact .inr (.inr (.inr (.inl ⟨rfl, _, _, rfl, items⟩)))
  | object members =>
    cases shape
    exact .inr (.inr (.inr (.inr ⟨rfl, _, _, rfl, members⟩)))

theorem Derives.isNumber {c : Char} {cs : List Char} (value : Derives .value (c :: cs))
    (starts : startsNumber c = true) : IsNumber (c :: cs) := by
  have other (d : Char) (outside : startsNumber d = false) : c ≠ d := by
    rintro rfl
    simp [outside] at starts
  rcases value.first_cases with ⟨word, -⟩ | ⟨-, number⟩ | quote | ⟨bracket, -⟩ | ⟨brace, -⟩
  · simp [other 'n' rfl, other 't' rfl, other 'f' rfl] at word
  · exact number
  · exact absurd quote (other '"' rfl)
  · exact absurd bracket (other '[' rfl)
  · exact absurd brace (other '\x7b' rfl)

theorem Derives.eq_null {cs : List Char} (value : Derives .value ('n' :: cs)) : 'n' :: cs = "null".toList := by
  rcases value.first_cases with ⟨-, w, known, shape⟩ | ⟨starts, -⟩ | quote | ⟨bracket, -⟩ | ⟨brace, -⟩
  · simp only [List.mem_cons, List.not_mem_nil, or_false] at known
    rcases known with rfl | rfl | rfl
    · exact shape
    · cases shape
    · cases shape
  · exact absurd starts (by decide)
  · exact absurd quote (by decide)
  · exact absurd bracket (by decide)
  · exact absurd brace (by decide)

theorem Derives.array_inv {cs : List Char} (value : Derives .value ('[' :: cs)) :
    ∃ vs t, cs = t ++ [']'] ∧ Derives (.items vs) t := by
  rcases value.first_cases with ⟨word, -⟩ | ⟨starts, -⟩ | quote | ⟨-, items⟩ | ⟨brace, -⟩
  · exact absurd word (by decide)
  · exact absurd starts (by decide)
  · exact absurd quote (by decide)
  · exact items
  · exact absurd brace (by decide)

theorem Derives.object_inv {cs : List Char} (value : Derives .value ('\x7b' :: cs)) :
    ∃ ms t, cs = t ++ ['\x7d'] ∧ Derives (.members ms) t := by
  rcases value.first_cases with ⟨word, -⟩ | ⟨starts, -⟩ | quote | ⟨bracket, -⟩ | ⟨-, members⟩
  · exact absurd word (by decide)
  · exact absurd starts (by decide)
  · exact absurd quote (by decide)
  · exact absurd bracket (by decide)
  · exact members

theorem number_whole {x : Number} (value : Derives .value t) (ends : Stops rest)
    (read : number (t ++ rest) = .ok (x, rest')) : rest' = rest := by
  unfold number at read
  obtain ⟨n, rest'', taken, returned⟩ := bind_eq_ok read
  have same : rest' = rest'' := by
    cases number : n.value? with
    | none => simp [number, malformed] at returned
    | some y =>
      simp only [number, pure_apply, Except.ok.injEq, Prod.mk.injEq] at returned
      exact returned.2.symm
  have taken : Numeral.read? (t ++ rest) = some (n, rest'') := by
    unfold ofOption at taken
    split at taken <;> simp_all
  obtain ⟨c, cs, rfl, -⟩ := value.starts
  obtain ⟨d, ds, shape, starts⟩ := starts_of_read? taken
  obtain ⟨rfl, -⟩ := List.cons.inj shape
  obtain ⟨m, read⟩ := read?_number (value.isNumber starts) ends
  simp only [read, Option.some.injEq, Prod.mk.injEq] at taken
  rw [same, taken.2]

theorem regular_ofNumber (expected : String) (convert : Number → Except Mismatch α) :
    Regular (ofNumber expected convert) where
  spaced := spaced_space.bind _
  whole t rest x rest' value ends read := by
    obtain ⟨c, cs, rfl, other, -⟩ := value.starts
    rw [ofNumber, List.cons_append, bind_ok (space_cons other), bind_ok (peek_cons _ _)] at read
    simp only at read
    split at read
    · obtain ⟨y, rest'', taken, returned⟩ := bind_eq_ok read
      have same := number_whole value ends taken
      cases converted : convert y <;> simp_all [mismatch, pure_apply]
    · obtain ⟨e, refused⟩ := refuse_refuses (α := α) expected (c :: (cs ++ rest))
      simp [refused] at read

theorem regular_optional {r : Reader α} (regular : Regular r) : Regular (Reader.optional r) where
  spaced := spaced_space.bind _
  whole t rest x rest' value ends read := by
    obtain ⟨c, cs, rfl, other, -⟩ := value.starts
    unfold Reader.optional at read
    rw [List.cons_append, bind_ok (space_cons other), bind_ok (peek_cons _ _)] at read
    by_cases null : c = 'n'
    · subst null
      rw [← List.cons_append, value.eq_null] at read
      cases read
      rfl
    · simp only [Option.some.injEq, null, imp_self] at read
      obtain ⟨y, rest'', taken, returned⟩ := bind_eq_ok read
      cases returned
      exact regular.whole _ _ _ _ value ends taken

namespace Field

variable {name : String}

theorem regular_word {get : α → UInt64} {set : UInt64 → α → α} : Regular (word name get set).read :=
  (regular_ofNumber "u64" _).map set

theorem regular_size {absence : Absence} {get : α → UInt64} {set : UInt64 → α → α} :
    Regular (size name absence get set).read :=
  (regular_ofNumber "usize" _).map set

theorem regular_ref {kind : Kind} {get : α → Ref kind} {set : Ref kind → α → α} : Regular (ref name get set).read :=
  regular_word

theorem regular_link {kind : Kind} {get : α → Option (Ref kind)} {set : Option (Ref kind) → α → α} :
    Regular (link name get set).read :=
  (regular_optional (regular_ofNumber "u64" _)).map fun raw => set (raw.map .ofRaw)

end Field

end VectorGraph.Json
