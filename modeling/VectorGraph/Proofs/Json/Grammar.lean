import VectorGraph.Proofs.Json.Record

/-!
The grammar of JSON texts, and what the readers take of a text that it derives. A value that is not wanted is
passed over exactly, whatever it is: the nesting that the reader allows is twice the length of the text, and a
nested part is shorter by the character that opens it.
-/
namespace VectorGraph.Json

open Reader

def Blank (b : List Char) : Prop := ∀ c ∈ b, isSpace c = true

def IsDigits (t : List Char) : Prop := t ≠ [] ∧ ∀ c ∈ t, c.isDigit = true

/-- A zero is not followed by another digit. -/
def IsWhole (t : List Char) : Prop := IsDigits t ∧ ∀ c cs, t ≠ '0' :: c :: cs

inductive IsFraction : List Char → Prop
  | none : IsFraction []
  | point {ds : List Char} (digits : IsDigits ds) : IsFraction ('.' :: ds)

inductive IsPower : List Char → Prop
  | none : IsPower []
  | power {e : Char} {sign ds : List Char} (letter : e = 'e' ∨ e = 'E') (signs : sign ∈ [[], ['+'], ['-']])
      (digits : IsDigits ds) : IsPower (e :: (sign ++ ds))

inductive IsNumber : List Char → Prop
  | intro {sign w f p : List Char} (signs : sign ∈ [[], ['-']]) (whole : IsWhole w) (fraction : IsFraction f)
      (power : IsPower p) : IsNumber (sign ++ (w ++ (f ++ p)))

theorem IsWhole.isNumber {t : List Char} (whole : IsWhole t) : IsNumber t := by
  have number := IsNumber.intro (List.mem_cons_self (a := [])) whole .none .none
  simpa using number

def IsPlain (c : Char) : Prop := c ≠ '"' ∧ c ≠ '\\' ∧ 32 ≤ c.toNat

instance (c : Char) : Decidable (IsPlain c) := inferInstanceAs (Decidable (_ ∧ _ ∧ _))

theorem plain_of_all {cs : List Char} (all : cs.all (fun c => decide (IsPlain c)) = true) : ∀ c ∈ cs, IsPlain c :=
  fun c mem => of_decide_eq_true (List.all_eq_true.1 all c mem)

/-- What stands between the quotes of a string. -/
inductive IsLiteral : List Char → Prop
  | nil : IsLiteral []
  | plain {c : Char} {t : List Char} (plain : IsPlain c) (rest : IsLiteral t) : IsLiteral (c :: t)
  | escape {c e : Char} {t : List Char} (escape : escape? c = some e) (rest : IsLiteral t) :
      IsLiteral ('\\' :: c :: t)
  | unicode {a b c d : Char} {n : Nat} {t : List Char} (digits : Text.hexNumber? [a, b, c, d] = some n)
      (rest : IsLiteral t) : IsLiteral ('\\' :: 'u' :: a :: b :: c :: d :: t)

/-- A literal together with the string it stands for. Surrogates come in pairs. -/
inductive Spells : List Char → List Char → Prop
  | nil : Spells [] []
  | plain {c : Char} {s t : List Char} (plain : IsPlain c) (rest : Spells s t) : Spells (c :: s) (c :: t)
  | escape {c e : Char} {s t : List Char} (escape : escape? c = some e) (rest : Spells s t) :
      Spells (e :: s) ('\\' :: c :: t)
  | unicode {a b c d : Char} {n : Nat} {s t : List Char} (digits : Text.hexNumber? [a, b, c, d] = some n)
      (high : isHighSurrogate n = false) (low : isLowSurrogate n = false) (rest : Spells s t) :
      Spells (.ofNat n :: s) ('\\' :: 'u' :: a :: b :: c :: d :: t)
  | surrogates {a b c d e f g h : Char} {n m : Nat} {s t : List Char}
      (digits : Text.hexNumber? [a, b, c, d] = some n) (high : isHighSurrogate n = true)
      (digits' : Text.hexNumber? [e, f, g, h] = some m) (low : isLowSurrogate m = true) (rest : Spells s t) :
      Spells (pair n m :: s) ('\\' :: 'u' :: a :: b :: c :: d :: '\\' :: 'u' :: e :: f :: g :: h :: t)

/-- What a text can be: a value, a value with blanks around it, the inside of an array with the texts of its
values, a member of an object, or the inside of an object with the literals of its names and the texts of its
values. -/
inductive Part where
  | value
  | item (value : List Char)
  | items (values : List (List Char))
  | member (name value : List Char)
  | members (members : List (List Char × List Char))

inductive Derives : Part → List Char → Prop
  | word {w : String} (known : w ∈ ["null", "true", "false"]) : Derives .value w.toList
  | number {t : List Char} (number : IsNumber t) : Derives .value t
  | string {t : List Char} (literal : IsLiteral t) : Derives .value ('"' :: (t ++ ['"']))
  | array {vs : List (List Char)} {t : List Char} (items : Derives (.items vs) t) :
      Derives .value ('[' :: (t ++ [']']))
  | object {ms : List (List Char × List Char)} {t : List Char} (members : Derives (.members ms) t) :
      Derives .value ('\x7b' :: (t ++ ['\x7d']))
  | item {b v a : List Char} (before : Blank b) (value : Derives .value v) (after : Blank a) :
      Derives (.item v) (b ++ (v ++ a))
  | noItem {b : List Char} (blank : Blank b) : Derives (.items []) b
  | lastItem {v t : List Char} (item : Derives (.item v) t) : Derives (.items [v]) t
  | moreItems {v w s t : List Char} {vs : List (List Char)} (item : Derives (.item v) s)
      (items : Derives (.items (w :: vs)) t) : Derives (.items (v :: w :: vs)) (s ++ ',' :: t)
  | member {b n c v t : List Char} (before : Blank b) (name : IsLiteral n) (named : Blank c)
      (item : Derives (.item v) t) : Derives (.member n v) (b ++ '"' :: (n ++ '"' :: (c ++ ':' :: t)))
  | noMember {b : List Char} (blank : Blank b) : Derives (.members []) b
  | lastMember {n v t : List Char} (member : Derives (.member n v) t) : Derives (.members [(n, v)]) t
  | moreMembers {n v s t : List Char} {m : List Char × List Char} {ms : List (List Char × List Char)}
      (member : Derives (.member n v) s) (members : Derives (.members (m :: ms)) t) :
      Derives (.members ((n, v) :: m :: ms)) (s ++ ',' :: t)

variable {α : Type} {b s t rest rest' : List Char} {c : Char}

theorem blank_nil : Blank [] := by simp [Blank]

theorem space_blank (blank : Blank b) (cs : List Char) : space (b ++ cs) = space cs := by
  rw [space, List.dropWhile_append_of_pos blank, space]

theorem space_until {cs : List Char} (blank : Blank b) (other : isSpace c = false) :
    space (b ++ c :: cs) = .ok ((), c :: cs) := by
  rw [space_blank blank, space_cons other]

theorem stops_blank (blank : Blank b) (ends : Stops rest) : Stops (b ++ rest) := by
  cases b with
  | nil => exact ends
  | cons c b =>
    have blank := blank c (by simp)
    simp only [isSpace, Bool.or_eq_true, beq_iff_eq] at blank
    rcases blank with ((rfl | rfl) | rfl) | rfl <;> simp [Stops]

theorem stops_bracket (rest : List Char) : Stops (']' :: rest) := by simp [Stops]

/-- A reader that passes over blanks before it reads. -/
def Spaced (r : Reader α) : Prop := ∀ b, Blank b → ∀ cs, r (b ++ cs) = r cs

theorem spaced_space : Spaced space := fun _ => space_blank

theorem Spaced.bind {β : Type} {r : Reader α} (spaced : Spaced r) (f : α → Reader β) : Spaced (r >>= f) := by
  intro b blank cs
  show (r (b ++ cs) >>= fun p => f p.1 p.2) = (r cs >>= fun p => f p.1 p.2)
  rw [spaced b blank]

theorem whole?_append (whole : IsWhole s) (stops : ∀ c ∈ rest.head?, c.isDigit = false) :
    Numeral.whole? (s ++ rest) = some (s, rest) := by
  unfold Numeral.whole?
  rw [Numeral.digits?_append whole.1.2 whole.1.1 stops]
  split
  · rename_i c cs _ same
    simp only [Option.some.injEq, Prod.mk.injEq] at same
    exact absurd same.1 (whole.2 c cs)
  · rfl

theorem fraction?_fraction (fraction : IsFraction s) (stops : ∀ c ∈ rest.head?, c.isDigit = false ∧ c ≠ '.') :
    ∃ ds, Numeral.fraction? (s ++ rest) = some (ds, rest) := by
  cases fraction with
  | none =>
    have digits : ∀ c : Char, c ∈ [] → c.isDigit = true := by simp
    exact ⟨[], Numeral.fraction?_append digits stops⟩
  | @point ds digits => exact ⟨ds, Numeral.digits?_append digits.2 digits.1 fun c mem => (stops c mem).1⟩

theorem exponent?_power (power : IsPower s) (ends : Stops rest) :
    ∃ e, Numeral.exponent? (s ++ rest) = some (e, rest) := by
  cases power with
  | none => exact ⟨none, Numeral.exponent?_append (e := none) ends (by simp)⟩
  | @power e sign ds letter signs digits =>
    have taken := Numeral.digits?_append digits.2 digits.1 fun c mem => (ends c mem).1
    obtain ⟨d, ds, rfl⟩ := List.exists_cons_of_ne_nil digits.1
    have digit := digits.2 d (by simp)
    simp only [List.mem_cons, List.not_mem_nil, or_false] at signs
    rcases signs with rfl | rfl | rfl
    · have plus : d ≠ '+' := by rintro rfl; simp at digit
      have minus : d ≠ '-' := by rintro rfl; simp at digit
      refine ⟨some (false, d :: ds), ?_⟩
      simp_all [Numeral.exponent?]
    · exact ⟨some (false, d :: ds), by simp_all [Numeral.exponent?]⟩
    · exact ⟨some (true, d :: ds), by simp_all [Numeral.exponent?]⟩

/-- A number of the grammar is taken whole. -/
theorem read?_number (number : IsNumber t) (ends : Stops rest) :
    ∃ n, Numeral.read? (t ++ rest) = some (n, rest) := by
  obtain @⟨sign, w, f, p, signs, whole, fraction, power⟩ := number
  have powerStops : ∀ c ∈ (p ++ rest).head?, c.isDigit = false ∧ c ≠ '.' := by
    cases power with
    | none => exact fun c mem => ⟨(ends c mem).1, (ends c mem).2.1⟩
    | power letter => rcases letter with rfl | rfl <;> simp
  have fractionStops : ∀ c ∈ (f ++ (p ++ rest)).head?, c.isDigit = false := by
    cases fraction with
    | none => exact fun c mem => (powerStops c mem).1
    | point => simp
  have wholeRead := whole?_append whole fractionStops
  obtain ⟨fs, fractionRead⟩ := fraction?_fraction fraction powerStops
  obtain ⟨e, powerRead⟩ := exponent?_power power ends
  simp only [List.mem_cons, List.not_mem_nil, or_false] at signs
  rcases signs with rfl | rfl
  · obtain ⟨d, ds, rfl⟩ := List.exists_cons_of_ne_nil whole.1.1
    have minus : d ≠ '-' := by
      rintro rfl
      exact absurd (whole.1.2 '-' (by simp)) (by decide)
    refine ⟨⟨false, d :: ds, fs, e, !fs.isEmpty || e.isSome⟩, ?_⟩
    simp only [List.nil_append, List.append_assoc]
    unfold Numeral.read?
    split
    simp_all
  · refine ⟨⟨true, w, fs, e, !fs.isEmpty || e.isSome⟩, ?_⟩
    simp_all [Numeral.read?]

theorem ne_u_of_escape? {c e : Char} (escape : escape? c = some e) : c ≠ 'u' := by
  rintro rfl
  simp [escape?] at escape

theorem string?_plain {c : Char} (plain : IsPlain c) (cs : List Char) :
    string? (c :: cs) = (string? cs).map fun (s, cs) => (c :: s, cs) := by
  obtain ⟨quote, backslash, above⟩ := plain
  rw [string?.eq_def]
  split <;> simp_all

theorem string?_escape {c e : Char} (escape : escape? c = some e) (cs : List Char) :
    string? ('\\' :: c :: cs) = (string? cs).map fun (s, cs) => (e :: s, cs) := by
  simp [string?, escape, ne_u_of_escape? escape]

theorem string?_spells (spells : Spells s t) : string? (t ++ '"' :: rest) = some (s, rest) := by
  induction spells with
  | nil => simp [string?]
  | plain plain spells ih => simp [string?_plain plain, ih]
  | escape escape spells ih => simp [string?_escape escape, ih]
  | unicode digits high low spells ih => simp [string?, digits, high, low, ih]
  | surrogates digits high digits' low spells ih => simp [string?, digits, high, digits', low, ih]

/-- A literal that starts with an escaped number goes on after its digits. -/
theorem IsLiteral.unicode_inv {a b c d : Char} {cs : List Char} (literal : IsLiteral t)
    (shape : t ++ '"' :: rest = '\\' :: 'u' :: a :: b :: c :: d :: cs) :
    ∃ t', t = '\\' :: 'u' :: a :: b :: c :: d :: t' ∧ IsLiteral t' ∧ cs = t' ++ '"' :: rest := by
  cases literal with
  | nil => simp at shape
  | plain plain literal => exact absurd (List.cons.inj shape).1 plain.2.1
  | escape escape literal => exact absurd (List.cons.inj (List.cons.inj shape).2).1 (ne_u_of_escape? escape)
  | unicode digits literal =>
    simp only [List.cons_append, List.cons.injEq, true_and] at shape
    obtain ⟨rfl, rfl, rfl, rfl, rfl⟩ := shape
    exact ⟨_, rfl, literal, rfl⟩

theorem spells_self (plain : ∀ c ∈ s, IsPlain c) : Spells s s := by
  induction s with
  | nil => exact .nil
  | cons c s ih => exact .plain (plain c List.mem_cons_self) (ih fun d mem => plain d (List.mem_cons_of_mem c mem))

theorem isLiteral_self (plain : ∀ c ∈ s, IsPlain c) : IsLiteral s := by
  induction s with
  | nil => exact .nil
  | cons c s ih => exact .plain (plain c List.mem_cons_self) (ih fun d mem => plain d (List.mem_cons_of_mem c mem))

/-- A string is read to its closing quote or not at all, as a low surrogate can be missing. -/
theorem spells_of_string? (literal : IsLiteral t) (read : string? (t ++ '"' :: rest) = some (s, rest')) :
    Spells s t ∧ rest' = rest := by
  induction length : t.length using Nat.strong_induction_on generalizing s t with
  | h n ih =>
    cases literal with
    | nil =>
      simp only [List.nil_append, string?, Option.some.injEq, Prod.mk.injEq] at read
      exact ⟨read.1 ▸ .nil, read.2.symm⟩
    | @plain c t plain literal =>
      simp only [List.cons_append, string?_plain plain, Option.map_eq_some_iff, Prod.exists, Prod.mk.injEq] at read
      obtain ⟨s, rest', read, rfl, rfl⟩ := read
      obtain ⟨spells, same⟩ := ih _ (by simp [← length]) literal read rfl
      exact ⟨.plain plain spells, same⟩
    | @escape c e t escape literal =>
      simp only [List.cons_append, string?_escape escape, Option.map_eq_some_iff, Prod.exists, Prod.mk.injEq] at read
      obtain ⟨s, rest', read, rfl, rfl⟩ := read
      obtain ⟨spells, same⟩ := ih _ (by rw [← length]; simp only [List.length_cons]; omega) literal read rfl
      exact ⟨.escape escape spells, same⟩
    | @unicode a b c d n t digits literal =>
      simp only [List.cons_append, string?, digits] at read
      split at read
      · rename_i high
        split at read
        · rename_i e f g h cs shape
          obtain ⟨t, rfl, literal, rfl⟩ := literal.unicode_inv shape
          split at read
          · simp at read
          · rename_i m digits'
            split at read
            · rename_i low
              simp only [Option.map_eq_some_iff, Prod.exists, Prod.mk.injEq] at read
              obtain ⟨s, rest', read, rfl, rfl⟩ := read
              obtain ⟨spells, same⟩ := ih _ (by rw [← length]; simp only [List.length_cons]; omega) literal read rfl
              exact ⟨.surrogates digits high digits' low spells, same⟩
            · simp at read
        · simp at read
      · rename_i high
        split at read
        · simp at read
        · rename_i low
          simp only [Option.map_eq_some_iff, Prod.exists, Prod.mk.injEq] at read
          obtain ⟨s, rest', read, rfl, rfl⟩ := read
          obtain ⟨spells, same⟩ := ih _ (by rw [← length]; simp only [List.length_cons]; omega) literal read rfl
          exact ⟨.unicode digits (by simpa using high) (by simpa using low) spells, same⟩

theorem stringEnd?_literal (literal : IsLiteral t) : stringEnd? (t ++ '"' :: rest) = some ((), rest) := by
  induction literal with
  | nil => simp [stringEnd?]
  | plain plain literal ih =>
    obtain ⟨quote, backslash, above⟩ := plain
    rw [List.cons_append, stringEnd?.eq_def]
    split <;> simp_all
  | escape escape literal ih => simp [stringEnd?, escape, ne_u_of_escape? escape, ih]
  | unicode digits literal ih => simp [stringEnd?, digits, ih]

theorem IsNumber.starts (number : IsNumber t) : ∃ c cs, t = c :: cs ∧ startsNumber c = true := by
  have ends : Stops [] := by simp [Stops]
  obtain ⟨n, read⟩ := read?_number number ends
  rw [List.append_nil] at read
  exact starts_of_read? read

/-- No value starts with a blank or with what closes a part. -/
theorem Derives.starts (value : Derives .value t) :
    ∃ c cs, t = c :: cs ∧ isSpace c = false ∧ c ≠ ']' ∧ c ≠ '\x7d' ∧ c ≠ ',' := by
  cases value with
  | word known =>
    simp only [List.mem_cons, List.not_mem_nil, or_false] at known
    rcases known with rfl | rfl | rfl <;> exact ⟨_, _, rfl, by decide⟩
  | number number =>
    obtain ⟨c, cs, rfl, starts⟩ := number.starts
    refine ⟨c, cs, rfl, isSpace_of_startsNumber starts, ?_, ?_, ?_⟩ <;>
      · rintro rfl
        simp [startsNumber] at starts
  | _ => exact ⟨_, _, rfl, by decide⟩

theorem Derives.blank_of_items (items : Derives (.items []) t) : Blank t := by
  cases items
  assumption

theorem Derives.blank_of_members (members : Derives (.members []) t) : Blank t := by
  cases members
  assumption

theorem Derives.item_starts {v : List Char} (item : Derives (.item v) t) :
    ∃ b c cs, t = b ++ c :: cs ∧ Blank b ∧ isSpace c = false ∧ c ≠ ']' := by
  cases item with
  | @item b v a before value after =>
    obtain ⟨c, cs, rfl, other, bracket, -⟩ := value.starts
    exact ⟨b, c, cs ++ a, by simp, before, other, bracket⟩

theorem Derives.items_start {vs : List (List Char)} (items : Derives (.items vs) t) (some_item : vs ≠ []) :
    ∃ b c cs, t = b ++ c :: cs ∧ Blank b ∧ isSpace c = false ∧ c ≠ ']' := by
  cases items with
  | noItem => exact absurd rfl some_item
  | lastItem item => exact item.item_starts
  | moreItems item =>
    obtain ⟨b, c, cs, rfl, starts⟩ := item.item_starts
    exact ⟨b, c, _, List.append_assoc _ _ _, starts⟩

theorem Derives.members_start {ms : List (List Char × List Char)} (members : Derives (.members ms) t)
    (some_member : ms ≠ []) : ∃ b cs, t = b ++ '"' :: cs ∧ Blank b := by
  cases members with
  | noMember => exact absurd rfl some_member
  | lastMember member =>
    cases member with
    | member before => exact ⟨_, _, rfl, before⟩
  | moreMembers member =>
    cases member with
    | member before => exact ⟨_, _, List.append_assoc _ _ _, before⟩

theorem spaced_skipWithin (depth : Nat) : Spaced (skipWithin depth) := by
  cases depth with
  | zero => exact fun _ _ _ => rfl
  | succ depth =>
    unfold skipWithin
    exact spaced_space.bind _

theorem skipWithin_number (number : IsNumber t) (ends : Stops rest) (depth : Nat) :
    skipWithin (depth + 1) (t ++ rest) = .ok ((), rest) := by
  obtain ⟨n, read⟩ := read?_number number ends
  obtain ⟨c, cs, rfl, starts⟩ := number.starts
  have taken : ofOption Numeral.read? (c :: cs ++ rest) = .ok (n, rest) := by rw [ofOption, read]
  obtain ⟨null, yes, no, quote, bracket, brace⟩ : c ≠ 'n' ∧ c ≠ 't' ∧ c ≠ 'f' ∧ c ≠ '"' ∧ c ≠ '[' ∧ c ≠ '\x7b' := by
    refine ⟨?_, ?_, ?_, ?_, ?_, ?_⟩ <;>
      · rintro rfl
        simp [startsNumber] at starts
  unfold skipWithin
  rw [List.cons_append, bind_ok (space_cons (isSpace_of_startsNumber starts)), bind_ok (peek_cons _ _)]
  simp only
  exact bind_ok taken

theorem skipWithin_string (literal : IsLiteral t) (depth : Nat) :
    skipWithin (depth + 1) ('"' :: (t ++ '"' :: rest)) = .ok ((), rest) := by
  have quote : space ('"' :: (t ++ '"' :: rest)) = .ok ((), _) := space_cons rfl
  unfold skipWithin
  rw [bind_ok quote, bind_ok (peek_cons _ _)]
  have taken : ofOption stringEnd? (t ++ '"' :: rest) = .ok ((), rest) := by
    rw [ofOption, stringEnd?_literal literal]
  exact (bind_ok (char_cons _ _)).trans taken

theorem skipWithin_word {w : String} (known : w ∈ ["null", "true", "false"]) (depth : Nat) :
    skipWithin (depth + 1) (w.toList ++ rest) = .ok ((), rest) := by
  unfold skipWithin
  simp only [List.mem_cons, List.not_mem_nil, or_false] at known
  rcases known with rfl | rfl | rfl <;> rfl

/-- Passes over one member. -/
def skipMember (depth : Nat) : Reader Unit := do
  space
  char '"'
  ofOption stringEnd?
  space
  char ':'
  skipWithin depth

/-- Passes over one part of an array or of an object, and over more of them after a comma. -/
def skipListed (close : Char) (part more : Reader Unit) : Reader Unit := do
  part
  space
  match ← peek with
  | some ',' => do
    char ','
    more
  | _ => char close

theorem skipItems_succ (depth : Nat) :
    skipItems (depth + 1) = skipListed ']' (skipWithin depth) (skipItems depth) :=
  rfl

theorem skipMembers_succ (depth : Nat) :
    skipMembers (depth + 1) = skipListed '\x7d' (skipMember depth) (skipMembers depth) := by
  simp only [skipListed, skipMember, bind_assoc]
  rfl

section Listed

variable {close : Char} {part more : Reader Unit} {a : List Char}

theorem skipListed_last (other : isSpace close = false) (noComma : close ≠ ',') (blank : Blank a)
    (taken : part (t ++ close :: rest) = .ok ((), a ++ close :: rest)) :
    skipListed close part more (t ++ close :: rest) = .ok ((), rest) := by
  rw [skipListed, bind_ok taken, bind_ok (space_until blank other), bind_ok (peek_cons _ _)]
  simp only [Option.some.injEq, noComma, imp_self]
  exact char_cons _ _

theorem skipListed_more (blank : Blank a) (taken : part (s ++ ',' :: t) = .ok ((), a ++ ',' :: t)) :
    skipListed close part more (s ++ ',' :: t) = more t := by
  rw [skipListed, bind_ok taken, bind_ok (space_until blank rfl), bind_ok (peek_cons _ _)]
  exact bind_ok (char_cons _ _)

end Listed

/-- How much of a text passing over a part takes, and how much nesting is enough. -/
def Part.Skipped : Part → List Char → Prop
  | value, t => ∀ depth rest, 2 * t.length ≤ depth → Stops rest → skipWithin depth (t ++ rest) = .ok ((), rest)
  | item _, t => ∃ a, Blank a ∧
      ∀ depth rest, 2 * t.length ≤ depth → Stops rest → skipWithin depth (t ++ rest) = .ok ((), a ++ rest)
  | items vs, t => vs ≠ [] → ∀ depth rest, 2 * t.length < depth → skipItems depth (t ++ ']' :: rest) = .ok ((), rest)
  | member _ _, t => ∃ a, Blank a ∧
      ∀ depth rest, 2 * t.length ≤ depth → Stops rest → skipMember depth (t ++ rest) = .ok ((), a ++ rest)
  | members ms, t => ms ≠ [] →
      ∀ depth rest, 2 * t.length < depth → skipMembers depth (t ++ '\x7d' :: rest) = .ok ((), rest)

theorem spaced_skipItems (depth : Nat) : Spaced (skipItems depth) := by
  cases depth with
  | zero => exact fun _ _ _ => rfl
  | succ depth =>
    unfold skipItems
    exact (spaced_skipWithin depth).bind _

theorem spaced_skipMembers (depth : Nat) : Spaced (skipMembers depth) := by
  cases depth with
  | zero => exact fun _ _ _ => rfl
  | succ depth =>
    unfold skipMembers
    exact spaced_space.bind _

theorem skipWithin_array {vs : List (List Char)} (items : Derives (.items vs) t)
    (skipped : Part.Skipped (.items vs) t) {depth : Nat} (enough : 2 * t.length < depth) :
    skipWithin (depth + 1) ('[' :: (t ++ ']' :: rest)) = .ok ((), rest) := by
  have bracket : space ('[' :: (t ++ ']' :: rest)) = .ok ((), _) := space_cons rfl
  unfold skipWithin
  rw [bind_ok bracket, bind_ok (peek_cons _ _)]
  simp only
  rw [bind_ok (char_cons _ _)]
  cases vs with
  | nil =>
    rw [bind_ok (space_until items.blank_of_items rfl), bind_ok (peek_cons _ _), if_pos rfl, char_cons]
  | cons v vs =>
    have skipped := skipped (by simp) depth rest enough
    obtain ⟨b, c, cs, rfl, blank, other, ne⟩ := items.items_start (by simp)
    rw [List.append_assoc] at skipped ⊢
    rw [List.cons_append, bind_ok (space_until blank other), bind_ok (peek_cons _ _), if_neg (by simpa using ne),
      ← spaced_skipItems depth b blank]
    exact skipped

theorem skipWithin_object {ms : List (List Char × List Char)} (members : Derives (.members ms) t)
    (skipped : Part.Skipped (.members ms) t) {depth : Nat} (enough : 2 * t.length < depth) :
    skipWithin (depth + 1) ('\x7b' :: (t ++ '\x7d' :: rest)) = .ok ((), rest) := by
  have brace : space ('\x7b' :: (t ++ '\x7d' :: rest)) = .ok ((), _) := space_cons rfl
  unfold skipWithin
  rw [bind_ok brace, bind_ok (peek_cons _ _)]
  simp only
  rw [bind_ok (char_cons _ _)]
  cases ms with
  | nil =>
    rw [bind_ok (space_until members.blank_of_members rfl), bind_ok (peek_cons _ _), if_pos rfl, char_cons]
  | cons m ms =>
    have skipped := skipped (by simp) depth rest enough
    obtain ⟨b, cs, rfl, blank⟩ := members.members_start (by simp)
    rw [List.append_assoc] at skipped ⊢
    rw [List.cons_append, bind_ok (space_until blank rfl), bind_ok (peek_cons _ _), if_neg (by simp),
      ← spaced_skipMembers depth b blank]
    exact skipped

theorem skipMember_name {b n c : List Char} (before : Blank b) (name : IsLiteral n) (named : Blank c) (depth : Nat)
    (cs : List Char) : skipMember depth (b ++ '"' :: (n ++ '"' :: (c ++ ':' :: cs))) = skipWithin depth cs := by
  have taken : ofOption stringEnd? (n ++ '"' :: (c ++ ':' :: cs)) = .ok ((), c ++ ':' :: cs) := by
    rw [ofOption, stringEnd?_literal name]
  rw [skipMember, bind_ok (space_until before rfl), bind_ok (char_cons _ _), bind_ok taken,
    bind_ok (space_until named rfl), bind_ok (char_cons _ _)]

/-- A value has a character, so where its nesting is allowed for there is a level to start with. -/
theorem Derives.exists_depth (value : Derives .value t) {depth : Nat} (enough : 2 * t.length ≤ depth) :
    ∃ d, depth = d + 1 := by
  obtain ⟨c, cs, rfl, -⟩ := value.starts
  rw [List.length_cons] at enough
  exact Nat.exists_eq_succ_of_ne_zero (by omega)

/-- Every part of the grammar is passed over, by induction on its derivation. -/
theorem Derives.skipped {p : Part} (derives : Derives p t) : p.Skipped t := by
  induction derives with
  | word known =>
    intro depth rest enough _
    obtain ⟨depth, rfl⟩ := (Derives.word known).exists_depth enough
    exact skipWithin_word known depth
  | number number =>
    intro depth rest enough ends
    obtain ⟨depth, rfl⟩ := (Derives.number number).exists_depth enough
    exact skipWithin_number number ends depth
  | string literal =>
    intro depth rest enough _
    obtain ⟨depth, rfl⟩ := (Derives.string literal).exists_depth enough
    simpa using skipWithin_string literal depth
  | array items ih =>
    intro depth rest enough _
    obtain ⟨depth, rfl⟩ := (Derives.array items).exists_depth enough
    simp only [List.length_cons, List.length_append] at enough
    simpa using skipWithin_array items ih (by omega)
  | object members ih =>
    intro depth rest enough _
    obtain ⟨depth, rfl⟩ := (Derives.object members).exists_depth enough
    simp only [List.length_cons, List.length_append] at enough
    simpa using skipWithin_object members ih (by omega)
  | @item b v a before value after ih =>
    refine ⟨a, after, fun depth rest enough ends => ?_⟩
    simp only [List.length_append] at enough
    rw [List.append_assoc, List.append_assoc, spaced_skipWithin depth b before]
    exact ih depth _ (by omega) (stops_blank after ends)
  | noItem blank => exact fun some_item => absurd rfl some_item
  | lastItem item ih =>
    intro _ depth rest enough
    obtain ⟨depth, rfl⟩ := Nat.exists_eq_succ_of_ne_zero (Nat.ne_zero_of_lt enough)
    obtain ⟨a, blank, skipped⟩ := ih
    rw [skipItems_succ]
    exact skipListed_last rfl (by decide) blank (skipped depth _ (by omega) (stops_bracket rest))
  | moreItems item items ih more =>
    intro _ depth rest enough
    obtain ⟨depth, rfl⟩ := Nat.exists_eq_succ_of_ne_zero (Nat.ne_zero_of_lt enough)
    obtain ⟨a, blank, skipped⟩ := ih
    simp only [List.length_append, List.length_cons] at enough
    rw [List.append_assoc, List.cons_append, skipItems_succ,
      skipListed_more blank (skipped depth _ (by omega) (stops_comma _))]
    exact more (by simp) depth rest (by omega)
  | @member b n c v t before name named item ih =>
    obtain ⟨a, blank, skipped⟩ := ih
    refine ⟨a, blank, fun depth rest enough ends => ?_⟩
    simp only [List.length_append, List.length_cons] at enough
    have text : (b ++ '"' :: (n ++ '"' :: (c ++ ':' :: t))) ++ rest
        = b ++ '"' :: (n ++ '"' :: (c ++ ':' :: (t ++ rest))) := by simp
    rw [text, skipMember_name before name named]
    exact skipped depth rest (by omega) ends
  | noMember blank => exact fun some_member => absurd rfl some_member
  | lastMember member ih =>
    intro _ depth rest enough
    obtain ⟨depth, rfl⟩ := Nat.exists_eq_succ_of_ne_zero (Nat.ne_zero_of_lt enough)
    obtain ⟨a, blank, skipped⟩ := ih
    rw [skipMembers_succ]
    exact skipListed_last rfl (by decide) blank (skipped depth _ (by omega) (stops_brace rest))
  | moreMembers member members ih more =>
    intro _ depth rest enough
    obtain ⟨depth, rfl⟩ := Nat.exists_eq_succ_of_ne_zero (Nat.ne_zero_of_lt enough)
    obtain ⟨a, blank, skipped⟩ := ih
    simp only [List.length_append, List.length_cons] at enough
    rw [List.append_assoc, List.cons_append, skipMembers_succ,
      skipListed_more blank (skipped depth _ (by omega) (stops_comma _))]
    exact more (by simp) depth rest (by omega)

theorem skip_value {v : List Char} (before : Blank b) (value : Derives .value v) (ends : Stops rest) :
    skip (b ++ (v ++ rest)) = .ok ((), rest) := by
  rw [skip, spaced_skipWithin _ b before]
  exact value.skipped _ _ (by simp only [List.length_append]; omega) ends

end VectorGraph.Json
