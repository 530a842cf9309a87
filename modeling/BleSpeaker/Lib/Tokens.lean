import Mathlib.Data.List.TakeWhile

/-!
# `strtok` and `atoi`

The two functions of the C library that take a text apart. `strtok` is a function from the rest of
the string to the next token and what is left behind its delimiter; `tokens` is the loop that calls
it until it finds none.
-/

namespace BleSpeaker.Lib
variable {delim : UInt8 → Bool} {word rest : List UInt8} {c : UInt8}

def strtok (delim : UInt8 → Bool) (s : List UInt8) : Option (List UInt8 × List UInt8) :=
  match s.dropWhile delim with
  | [] => none
  | c :: rest =>
    some ((c :: rest).takeWhile (!delim ·), ((c :: rest).dropWhile (!delim ·)).drop 1)

def tokensUpTo (delim : UInt8 → Bool) : Nat → List UInt8 → List (List UInt8)
  | 0, _ => []
  | turns + 1, s =>
    match strtok delim s with
    | none => []
    | some (token, rest) => token :: tokensUpTo delim turns rest

/-- A token has a byte at least, so there are not more tokens than bytes. -/
def tokens (delim : UInt8 → Bool) (s : List UInt8) : List (List UInt8) := tokensUpTo delim s.length s

theorem strtok_word (nonempty : word ≠ []) (plain : ∀ b ∈ word, delim b = false)
    (ends : delim c = true) : strtok delim (word ++ c :: rest) = some (word, rest) := by
  obtain ⟨b, word, rfl⟩ := List.exists_cons_of_ne_nil nonempty
  have first : delim b = false := plain b List.mem_cons_self
  have token : (b :: word ++ c :: rest).takeWhile (!delim ·) = b :: word := by
    rw [List.takeWhile_append_of_pos (by simpa using plain), List.takeWhile_cons_of_neg (by simpa using ends),
      List.append_nil]
  have left : (b :: word ++ c :: rest).dropWhile (!delim ·) = c :: rest := by
    rw [List.dropWhile_append_of_pos (by simpa using plain), List.dropWhile_cons_of_neg (by simpa using ends)]
  unfold strtok
  rw [List.cons_append, List.dropWhile_cons_of_neg (by simp [first])]
  simp only [← List.cons_append, token, left]
  rfl

theorem strtok_last (nonempty : word ≠ []) (plain : ∀ b ∈ word, delim b = false) :
    strtok delim word = some (word, []) := by
  obtain ⟨b, word, rfl⟩ := List.exists_cons_of_ne_nil nonempty
  have first : delim b = false := plain b List.mem_cons_self
  have token : (b :: word).takeWhile (!delim ·) = b :: word :=
    List.takeWhile_eq_self_iff.mpr (by simpa using plain)
  have left : (b :: word).dropWhile (!delim ·) = [] :=
    List.dropWhile_eq_nil_iff.mpr (by simpa using plain)
  unfold strtok
  rw [List.dropWhile_cons_of_neg (by simp [first])]
  simp only [token, left]
  rfl

theorem tokensUpTo_word {turns : Nat} (nonempty : word ≠ []) (plain : ∀ b ∈ word, delim b = false)
    (ends : delim c = true) :
    tokensUpTo delim (turns + 1) (word ++ c :: rest) = word :: tokensUpTo delim turns rest := by
  rw [tokensUpTo, strtok_word nonempty plain ends]

theorem tokensUpTo_last {turns : Nat} (nonempty : word ≠ []) (plain : ∀ b ∈ word, delim b = false) :
    tokensUpTo delim (turns + 1) word = [word] := by
  rw [tokensUpTo, strtok_last nonempty plain]
  cases turns <;> rfl

/-! ### Words

`Tokenized` says what the tokens of a text are: its longest stretches without a delimiter, in order.
-/

inductive Tokenized (delim : UInt8 → Bool) : List UInt8 → List (List UInt8) → Prop
  | nil : Tokenized delim [] []
  | delimiter {c : UInt8} {s : List UInt8} {toks : List (List UInt8)} (separates : delim c = true)
    (later : Tokenized delim s toks) : Tokenized delim (c :: s) toks
  | last {token : List UInt8} (nonempty : token ≠ []) (plain : ∀ b ∈ token, delim b = false) :
    Tokenized delim token [token]
  | more {token : List UInt8} {c : UInt8} {s : List UInt8} {toks : List (List UInt8)}
    (nonempty : token ≠ []) (plain : ∀ b ∈ token, delim b = false) (separates : delim c = true)
    (later : Tokenized delim s toks) : Tokenized delim (token ++ c :: s) (token :: toks)

variable {s : List UInt8} {toks : List (List UInt8)}

theorem Tokenized.delimiters {front : List UInt8} (all : ∀ b ∈ front, delim b = true)
    (later : Tokenized delim s toks) : Tokenized delim (front ++ s) toks := by
  induction front with
  | nil => exact later
  | cons c front ih =>
    exact .delimiter (all c List.mem_cons_self) (ih fun b member => all b (List.mem_cons_of_mem _ member))

theorem head_dropWhile {p : UInt8 → Bool} (stops : s.dropWhile p = c :: rest) : p c = false := by
  have head := List.head?_dropWhile_not p s
  rw [stops] at head
  simpa using head

theorem tokensUpTo_tokenized {turns : Nat} (enough : s.length ≤ turns) :
    Tokenized delim s (tokensUpTo delim turns s) := by
  induction turns generalizing s with
  | zero =>
    obtain rfl := List.eq_nil_of_length_eq_zero (Nat.le_zero.mp enough)
    exact .nil
  | succ turns ih =>
    have split := List.takeWhile_append_dropWhile (p := delim) (l := s)
    have front : ∀ b ∈ s.takeWhile delim, delim b = true := fun b member => List.mem_takeWhile_imp member
    rw [tokensUpTo, strtok]
    cases left : s.dropWhile delim with
    | nil =>
      rw [left, List.append_nil] at split
      rw [← split, ← List.append_nil (s.takeWhile delim)]
      exact .delimiters front .nil
    | cons c rest =>
      have first := head_dropWhile left
      rw [left] at split
      have parts := List.takeWhile_append_dropWhile (p := (!delim ·)) (l := c :: rest)
      have plain : ∀ b ∈ (c :: rest).takeWhile (!delim ·), delim b = false := by
        intro b member
        simpa using List.mem_takeWhile_imp member
      have nonempty : (c :: rest).takeWhile (!delim ·) ≠ [] := by simp [first]
      dsimp only
      cases behind : (c :: rest).dropWhile (!delim ·) with
      | nil =>
        rw [behind, List.append_nil] at parts
        rw [parts] at nonempty plain ⊢
        have here := Tokenized.delimiters front (.last nonempty plain)
        rw [split] at here
        cases turns <;> exact here
      | cons e after =>
        have separates : delim e = true := by simpa using head_dropWhile behind
        rw [behind] at parts
        have count := congrArg List.length split
        have inner := congrArg List.length parts
        simp only [List.length_append, List.length_cons] at count inner
        have later : Tokenized delim after (tokensUpTo delim turns after) := ih (by omega)
        have here := Tokenized.delimiters front (.more nonempty plain separates later)
        rwa [parts, split] at here

theorem tokens_tokenized (delim : UInt8 → Bool) (s : List UInt8) : Tokenized delim s (tokens delim s) :=
  tokensUpTo_tokenized (Nat.le_refl _)

/-- The number of places where a word starts, in a text behind a delimiter (or not). -/
def wordStarts (delim : UInt8 → Bool) : Bool → List UInt8 → Nat
  | _, [] => 0
  | behind, b :: s => (if behind && !delim b then 1 else 0) + wordStarts delim (delim b) s

theorem wordStarts_inside {token : List UInt8} (plain : ∀ b ∈ token, delim b = false) :
    wordStarts delim false (token ++ s) = wordStarts delim false s := by
  induction token with
  | nil => rfl
  | cons b token ih =>
    rw [List.cons_append, wordStarts, plain b List.mem_cons_self,
      ih fun b member => plain b (List.mem_cons_of_mem _ member)]
    simp

theorem wordStarts_token {token : List UInt8} (nonempty : token ≠ []) (plain : ∀ b ∈ token, delim b = false) :
    wordStarts delim true (token ++ s) = 1 + wordStarts delim false s := by
  obtain ⟨b, token, rfl⟩ := List.exists_cons_of_ne_nil nonempty
  rw [List.cons_append, wordStarts, plain b List.mem_cons_self,
    wordStarts_inside fun b member => plain b (List.mem_cons_of_mem _ member)]
  simp

theorem Tokenized.length_eq (tokenized : Tokenized delim s toks) :
    toks.length = wordStarts delim true s := by
  induction tokenized with
  | nil => rfl
  | delimiter separates _ ih => simp [wordStarts, separates, ih]
  | last nonempty plain =>
    have start := wordStarts_token (s := []) nonempty plain
    rw [List.append_nil] at start
    rw [start]
    rfl
  | more nonempty plain separates _ ih =>
    rw [wordStarts_token nonempty plain, List.length_cons, ih, wordStarts, separates]
    simp [Nat.add_comm]

theorem Tokenized.mem_infix (tokenized : Tokenized delim s toks) :
    ∀ token ∈ toks, token <:+: s ∧ ∀ b ∈ token, delim b = false := by
  induction tokenized with
  | nil => simp
  | delimiter _ _ ih =>
    intro token member
    obtain ⟨inside, plain⟩ := ih token member
    exact ⟨inside.trans (List.suffix_cons _ _).isInfix, plain⟩
  | last _ plain =>
    intro token member
    obtain rfl := List.mem_singleton.mp member
    exact ⟨List.infix_refl _, plain⟩
  | @more word c s toks _ plain _ _ ih =>
    intro token member
    rcases List.mem_cons.mp member with rfl | member
    · exact ⟨List.infix_append_left, plain⟩
    · obtain ⟨inside, free⟩ := ih token member
      exact ⟨inside.trans ((List.suffix_cons c s).isInfix.trans List.infix_append_right), free⟩

theorem Tokenized.count_le (tokenized : Tokenized delim s toks) : 2 * toks.length ≤ s.length + 1 := by
  induction tokenized with
  | nil => simp
  | delimiter _ _ ih =>
    rw [List.length_cons]
    omega
  | last nonempty _ =>
    have some := List.length_pos_iff.mpr nonempty
    rw [List.length_singleton]
    omega
  | more nonempty _ _ _ ih =>
    have some := List.length_pos_iff.mpr nonempty
    rw [List.length_append, List.length_cons, List.length_cons]
    omega

/-- A token leaves the others two bytes each at least, with their delimiters. -/
theorem Tokenized.length_le (tokenized : Tokenized delim s toks) :
    ∀ token ∈ toks, token.length + 2 * toks.length ≤ s.length + 2 := by
  induction tokenized with
  | nil => simp
  | delimiter _ _ ih =>
    intro token member
    have bound := ih token member
    rw [List.length_cons]
    omega
  | last _ _ =>
    intro token member
    obtain rfl := List.mem_singleton.mp member
    simp
  | more nonempty _ _ later ih =>
    intro token member
    have some := List.length_pos_iff.mpr nonempty
    have count := later.count_le
    rw [List.length_append, List.length_cons, List.length_cons]
    rcases List.mem_cons.mp member with rfl | member
    · omega
    · have bound := ih token member
      omega

theorem infix_of_separated {run front back : List UInt8} (absent : c ∉ run)
    (inside : run <:+: front ++ c :: back) : run <:+: front ∨ run <:+: back := by
  rcases List.infix_append_iff.mp inside with left | right | ⟨one, two, rfl, ends, starts⟩
  · exact Or.inl left
  · rcases List.infix_cons_iff.mp right with first | later
    · cases run with
      | nil => exact Or.inr (List.nil_infix)
      | cons b run =>
        obtain ⟨rfl, -⟩ := List.cons_prefix_cons.mp first
        exact absurd List.mem_cons_self absent
    · exact Or.inr later
  · cases two with
    | nil =>
      rw [List.append_nil]
      exact Or.inl ends.isInfix
    | cons b two =>
      obtain ⟨rfl, -⟩ := List.cons_prefix_cons.mp starts
      exact absurd (List.mem_append_right _ List.mem_cons_self) absent

/-- A stretch without a delimiter is within one token. -/
theorem Tokenized.exists_token (tokenized : Tokenized delim s toks) {run : List UInt8} (nonempty : run ≠ [])
    (plain : ∀ b ∈ run, delim b = false) (inside : run <:+: s) : ∃ token ∈ toks, run <:+: token := by
  have absent : ∀ c, delim c = true → c ∉ run := by
    intro c separates member
    rw [plain c member] at separates
    exact absurd separates (by decide)
  induction tokenized with
  | nil => exact absurd (List.infix_nil.mp inside) nonempty
  | @delimiter c s toks separates _ ih =>
    have later : run <:+: [] ++ c :: s := inside
    rcases infix_of_separated (absent c separates) later with empty | later
    · exact absurd (List.infix_nil.mp empty) nonempty
    · exact ih later
  | last => exact ⟨_, List.mem_singleton.mpr rfl, inside⟩
  | @more token c s toks _ _ separates _ ih =>
    rcases infix_of_separated (absent c separates) inside with here | later
    · exact ⟨token, List.mem_cons_self, here⟩
    · obtain ⟨other, member, found⟩ := ih later
      exact ⟨other, List.mem_cons_of_mem _ member, found⟩

/-! ### Numbers -/

def isSpace (b : UInt8) : Bool := b = 32 ∨ (9 ≤ b ∧ b ≤ 13)

def isDigit (b : UInt8) : Bool := 48 ≤ b ∧ b ≤ 57

def digitsValue (s : List UInt8) : Nat :=
  (s.takeWhile isDigit).foldl (fun v b => 10 * v + (b.toNat - 48)) 0

/-- 43 is `+`, 45 is `-`. -/
def atoi (s : List UInt8) : Int :=
  match s.dropWhile isSpace with
  | 45 :: rest => -(digitsValue rest : Int)
  | 43 :: rest => digitsValue rest
  | rest => digitsValue rest

theorem digit_not_space {b : UInt8} (digit : isDigit b = true) :
    isSpace b = false ∧ b ≠ 45 ∧ b ≠ 43 := by
  simp only [isDigit, decide_eq_true_eq, UInt8.le_iff_toNat_le] at digit
  obtain ⟨above, below⟩ := digit
  refine ⟨?_, ?_, ?_⟩
  · rw [isSpace, decide_eq_false_iff_not]
    rintro (rfl | ⟨-, low⟩)
    · exact absurd above (by decide)
    · have := UInt8.le_iff_toNat_le.mp low
      exact absurd (Nat.le_trans above this) (by decide)
  · rintro rfl
    exact absurd above (by decide)
  · rintro rfl
    exact absurd above (by decide)

theorem atoi_digits {s : List UInt8} (digits : ∀ b ∈ s, isDigit b = true) : atoi s = digitsValue s := by
  cases s with
  | nil => rfl
  | cons b s =>
    obtain ⟨space, minus, plus⟩ := digit_not_space (digits b List.mem_cons_self)
    unfold atoi
    rw [List.dropWhile_cons_of_neg (by simp [space])]
    split
    · rename_i same
      exact absurd (List.cons.inj same).1 minus
    · rename_i same
      exact absurd (List.cons.inj same).1 plus
    · rfl

def twoDigits (n : Nat) : List UInt8 := [UInt8.ofNat (48 + n / 10 % 10), UInt8.ofNat (48 + n % 10)]

theorem twoDigits_digit {n : Nat} (small : n < 100) : ∀ b ∈ twoDigits n, isDigit b = true := by
  have all : ∀ n : Fin 100, (twoDigits n).all isDigit = true := by decide +kernel
  exact List.all_eq_true.mp (all ⟨n, small⟩)

theorem atoi_twoDigits {n : Nat} (small : n < 100) : atoi (twoDigits n) = n := by
  have all : ∀ n : Fin 100, atoi (twoDigits n) = ((n : Nat) : Int) := by decide +kernel
  exact all ⟨n, small⟩

end BleSpeaker.Lib
