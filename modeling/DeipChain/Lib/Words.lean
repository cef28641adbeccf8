import Mathlib.Algebra.Ring.Int.Defs
import Mathlib.Algebra.Ring.Nat
import Mathlib.Data.List.Basic

/-!
# Fixed-width words in files

A file is the list of its bytes. A number is stored in a fixed count of bytes, the
least significant first. What was stored is read back if it fits, and a row of
stored words is read back word by word.
-/
namespace DeipChain.Words

/-- The lowest `count` bytes of a number, the least significant first. -/
def toBytes : Nat → Nat → List UInt8
  | 0, _ => []
  | count + 1, number => UInt8.ofNat number :: toBytes count (number / 256)

def fromBytes : List UInt8 → Nat
  | [] => 0
  | byte :: bytes => byte.toNat + 256 * fromBytes bytes

@[simp] theorem length_toBytes (count number : Nat) : (toBytes count number).length = count := by
  induction count generalizing number with
  | zero => rfl
  | succ count hypothesis => rw [toBytes, List.length_cons, hypothesis]

theorem fromBytes_toBytes (count number : Nat) :
    fromBytes (toBytes count number) = number % 256 ^ count := by
  induction count generalizing number with
  | zero => rw [toBytes, fromBytes, Nat.pow_zero, Nat.mod_one]
  | succ count hypothesis =>
    have low : (UInt8.ofNat number).toNat = number % 256 := UInt8.toNat_ofNat'
    rw [toBytes, fromBytes, hypothesis, low, Nat.pow_succ', Nat.mod_mul]

/-- Bytes that are read as a number and stored again are followed by zeros. -/
theorem toBytes_fromBytes {bytes : List UInt8} {count : Nat} (short : bytes.length ≤ count) :
    toBytes count (fromBytes bytes) = bytes ++ List.replicate (count - bytes.length) 0 := by
  induction bytes generalizing count with
  | nil =>
    rw [fromBytes, List.length_nil, Nat.sub_zero, List.nil_append]
    clear short
    induction count with
    | zero => rfl
    | succ count hypothesis =>
      rw [toBytes, Nat.zero_div, hypothesis, List.replicate_succ]
      rfl
  | cons byte bytes hypothesis =>
    cases count with
    | zero => cases short
    | succ count =>
      have low : UInt8.ofNat (byte.toNat + 256 * fromBytes bytes) = byte := by
        apply UInt8.toNat_inj.mp
        have bound := byte.toNat_lt
        rw [UInt8.toNat_ofNat']
        omega
      have high : (byte.toNat + 256 * fromBytes bytes) / 256 = fromBytes bytes := by
        have bound := byte.toNat_lt
        omega
      rw [List.length_cons] at short ⊢
      rw [fromBytes, toBytes, low, high, hypothesis (Nat.le_of_succ_le_succ short),
        Nat.add_sub_add_right, List.cons_append]

/-- `uint64_t` as it lies in a file. -/
def word (number : Nat) : List UInt8 :=
  toBytes 8 number

@[simp] theorem length_word (number : Nat) : (word number).length = 8 :=
  length_toBytes 8 number

theorem fromBytes_word {number : Nat} (fits : number < 2 ^ 64) : fromBytes (word number) = number := by
  rw [word, fromBytes_toBytes]
  exact Nat.mod_eq_of_lt fits

/-- A row of words. -/
def words (numbers : List Nat) : List UInt8 :=
  numbers.flatMap word

@[simp] theorem words_nil : words [] = [] := rfl

@[simp] theorem words_cons (number : Nat) (numbers : List Nat) :
    words (number :: numbers) = word number ++ words numbers := rfl

@[simp] theorem words_append (first second : List Nat) :
    words (first ++ second) = words first ++ words second :=
  List.flatMap_append

@[simp] theorem length_words (numbers : List Nat) : (words numbers).length = 8 * numbers.length := by
  induction numbers with
  | nil => rfl
  | cons number numbers hypothesis =>
    rw [words_cons, List.length_append, length_word, hypothesis, List.length_cons]
    omega

/-- The bytes of the word at a place in a row. -/
theorem words_slice {numbers : List Nat} {place number : Nat}
    (stored : numbers[place]? = some number) :
    ((words numbers).drop (8 * place)).take 8 = word number := by
  induction numbers generalizing place with
  | nil => simp at stored
  | cons first numbers hypothesis =>
    cases place with
    | zero =>
      have same : first = number := by simpa using stored
      rw [Nat.mul_zero, List.drop_zero, words_cons, same, List.take_left' (length_word number)]
    | succ place =>
      have shift : 8 * (place + 1) = (word first).length + 8 * place := by
        rw [length_word]
        omega
      rw [words_cons, shift, List.drop_length_add_append]
      exact hypothesis (by simpa using stored)

end DeipChain.Words
