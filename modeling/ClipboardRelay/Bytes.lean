/-!
Byte strings and the little-endian words inside them. Main statements: `words` undoes `ofWords`,
and `ofWords` undoes `words` where no byte is left over.
-/

namespace ClipboardRelay

abbrev Bytes := List UInt8

namespace Bytes

def ofWord (word : UInt32) : Bytes :=
  [ UInt8.ofNat word.toNat,
    UInt8.ofNat (word.toNat / 0x100),
    UInt8.ofNat (word.toNat / 0x10000),
    UInt8.ofNat (word.toNat / 0x1000000) ]

def toWord (b0 b1 b2 b3 : UInt8) : UInt32 :=
  UInt32.ofNat (b0.toNat + 0x100 * b1.toNat + 0x10000 * b2.toNat + 0x1000000 * b3.toNat)

def ofWords (words : List UInt32) : Bytes :=
  words.flatMap ofWord

def wordsAfter (seen : List UInt32) : Bytes → List UInt32
  | b0 :: b1 :: b2 :: b3 :: rest => wordsAfter (toWord b0 b1 b2 b3 :: seen) rest
  | _ => seen.reverse

/-- The words of a byte string. Up to three bytes that fill no word are left out. -/
def words (bytes : Bytes) : List UInt32 :=
  wordsAfter [] bytes

/-- Whether there are at least `count` bytes. No more than `count` of them are looked at. -/
def holds (count : Nat) (bytes : Bytes) : Bool :=
  count == 0 || !(bytes.drop (count - 1)).isEmpty

@[simp] theorem length_ofWord (word : UInt32) : (ofWord word).length = 4 := rfl

theorem ofNat_eq_of_mod {number : Nat} {byte : UInt8} (h : number % 256 = byte.toNat) :
    UInt8.ofNat number = byte := by
  apply UInt8.toNat_inj.mp
  rw [UInt8.toNat_ofNat']
  exact h

@[simp] theorem ofWord_toWord (b0 b1 b2 b3 : UInt8) :
    ofWord (toWord b0 b1 b2 b3) = [b0, b1, b2, b3] := by
  have h0 := b0.toNat_lt
  have h1 := b1.toNat_lt
  have h2 := b2.toNat_lt
  have h3 := b3.toNat_lt
  simp only [ofWord, toWord, UInt32.toNat_ofNat', List.cons.injEq, and_true]
  refine ⟨ofNat_eq_of_mod ?_, ofNat_eq_of_mod ?_, ofNat_eq_of_mod ?_, ofNat_eq_of_mod ?_⟩
  all_goals omega

@[simp] theorem toWord_ofWord (word : UInt32) :
    toWord (UInt8.ofNat word.toNat) (UInt8.ofNat (word.toNat / 0x100))
      (UInt8.ofNat (word.toNat / 0x10000)) (UInt8.ofNat (word.toNat / 0x1000000)) = word := by
  apply UInt32.toNat_inj.mp
  have := word.toNat_lt
  simp only [toWord, UInt8.toNat_ofNat', UInt32.toNat_ofNat']
  omega

theorem wordsAfter_eq (seen : List UInt32) (bytes : Bytes) :
    wordsAfter seen bytes = seen.reverse ++ words bytes := by
  suffices h : ∀ n (bytes : Bytes), bytes.length ≤ n → ∀ seen,
      wordsAfter seen bytes = seen.reverse ++ wordsAfter [] bytes from
    h bytes.length bytes (Nat.le_refl _) seen
  intro n
  induction n with
  | zero =>
    intro bytes h seen
    obtain rfl := List.length_eq_zero_iff.mp (Nat.le_zero.mp h)
    simp [wordsAfter]
  | succ n ih =>
    intro bytes h seen
    match bytes with
    | [] | [_] | [_, _] | [_, _, _] => simp [wordsAfter]
    | b0 :: b1 :: b2 :: b3 :: rest =>
      have hrest : rest.length ≤ n := by simp only [List.length_cons] at h; omega
      rw [wordsAfter, wordsAfter, ih rest hrest, ih rest hrest [_]]
      simp

@[simp] theorem words_cons (b0 b1 b2 b3 : UInt8) (rest : Bytes) :
    words (b0 :: b1 :: b2 :: b3 :: rest) = toWord b0 b1 b2 b3 :: words rest := by
  rw [words, wordsAfter, wordsAfter_eq]
  rfl

@[simp] theorem words_nil : words [] = [] := rfl

@[simp] theorem ofWords_nil : ofWords [] = [] := rfl

@[simp] theorem ofWords_cons (word : UInt32) (rest : List UInt32) :
    ofWords (word :: rest) = ofWord word ++ ofWords rest := rfl

@[simp] theorem length_ofWords (list : List UInt32) : (ofWords list).length = 4 * list.length := by
  induction list with
  | nil => rfl
  | cons word rest ih => simp [ih]; omega

@[simp] theorem words_ofWords_append (list : List UInt32) (rest : Bytes) :
    words (ofWords list ++ rest) = list ++ words rest := by
  induction list with
  | nil => rfl
  | cons word others ih =>
    change words (_ :: _ :: _ :: _ :: (ofWords others ++ rest)) = _
    rw [words_cons, toWord_ofWord, ih, List.cons_append]

@[simp] theorem words_ofWords (list : List UInt32) : words (ofWords list) = list := by
  simpa using words_ofWords_append list []

theorem ofWords_append (first second : List UInt32) :
    ofWords (first ++ second) = ofWords first ++ ofWords second :=
  List.flatMap_append

theorem ofWords_words {bytes : Bytes} (h : bytes.length % 4 = 0) : ofWords (words bytes) = bytes := by
  suffices hafter : ∀ seen, ofWords (wordsAfter seen bytes) = ofWords seen.reverse ++ bytes from
    hafter []
  intro seen
  fun_induction wordsAfter seen bytes with
  | case1 seen b0 b1 b2 b3 rest ih =>
    have hrest : rest.length % 4 = 0 := by
      simp only [List.length_cons] at h
      omega
    rw [ih hrest, List.reverse_cons, ofWords_append, List.append_assoc]
    simp
  | case2 bytes seen hshort =>
    match bytes with
    | [] => simp
    | [_] | [_, _] | [_, _, _] => simp at h
    | b0 :: b1 :: b2 :: b3 :: rest => exact absurd rfl (hshort b0 b1 b2 b3 rest)

theorem exists_ofWords_append {count : Nat} {bytes : Bytes} (h : 4 * count ≤ bytes.length) :
    ∃ list rest, list.length = count ∧ bytes = ofWords list ++ rest := by
  have htake : (bytes.take (4 * count)).length = 4 * count := List.length_take_of_le h
  have hwords : ofWords (words (bytes.take (4 * count))) = bytes.take (4 * count) :=
    ofWords_words (by rw [htake]; exact Nat.mul_mod_right 4 count)
  refine ⟨words (bytes.take (4 * count)), bytes.drop (4 * count), ?_, ?_⟩
  · have hlength := congrArg List.length hwords
    rw [length_ofWords, htake] at hlength
    omega
  · rw [hwords, List.take_append_drop]

theorem length_words_le (bytes : Bytes) : 4 * (words bytes).length ≤ bytes.length := by
  suffices h : ∀ n (bytes : Bytes), bytes.length ≤ n → 4 * (words bytes).length ≤ bytes.length from
    h bytes.length bytes (Nat.le_refl _)
  intro n
  induction n with
  | zero =>
    intro bytes h
    obtain rfl := List.length_eq_zero_iff.mp (Nat.le_zero.mp h)
    exact Nat.le_refl _
  | succ n ih =>
    intro bytes h
    match bytes with
    | [] | [_] | [_, _] | [_, _, _] => simp [words, wordsAfter]
    | b0 :: b1 :: b2 :: b3 :: rest =>
      simp only [List.length_cons] at h
      have := ih rest (by omega)
      simp only [words_cons, List.length_cons]
      omega

@[simp] theorem holds_iff (count : Nat) (bytes : Bytes) :
    holds count bytes = true ↔ count ≤ bytes.length := by
  cases count with
  | zero => simp [holds]
  | succ n =>
    have hdrop : holds (n + 1) bytes = !(bytes.drop n).isEmpty := rfl
    rw [hdrop, Bool.not_eq_true', List.isEmpty_eq_false_iff, ne_eq, List.drop_eq_nil_iff]
    omega

end Bytes

end ClipboardRelay
