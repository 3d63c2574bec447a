import Esp8266.Guarantees.Base64Encoder
import Esp8266.Lib.Word16

/-!
# `base64::encode`

The blocks are one encoding, each of them leaves room for its NUL in the buffer, and the string
is the standard encoding with a line feed behind each line of 54 bytes. A last line that is
filled by its padding gets none.
-/
set_option autoImplicit false

namespace Esp8266.Source.Base64
open Esp8266.Lib.Word16 Esp8266.Source.WebServer Esp8266.Source.WString

theorem base64EncodeValue_ne_zero (n : UInt8) : base64EncodeValue n ≠ 0 := by
  revert n
  exact forall_byte (by decide)

/-- No character of the code is a NUL. -/
theorem base64EncodeBlock_plain (plain : List UInt8) :
    ∀ state : Base64EncodeState, 0 ∉ (base64EncodeBlock plain state).1 := by
  induction plain with
  | nil => intro state; exact List.not_mem_nil
  | cons fragment plain ih =>
    intro state
    rcases state with ⟨step, result, stepcount, stepsnewline⟩
    have value := fun n => (base64EncodeValue_ne_zero n).symm
    cases step with
    | stepA =>
      simp only [base64EncodeBlock_stepA, List.mem_cons, not_or]
      exact ⟨value _, ih _⟩
    | stepB =>
      simp only [base64EncodeBlock_stepB, List.mem_cons, not_or]
      exact ⟨value _, ih _⟩
    | stepC =>
      simp only [base64EncodeBlock_stepC, List.mem_cons, not_or]
      refine ⟨value _, value _, ?_⟩
      split
      · rw [List.mem_cons, not_or]
        exact ⟨by decide, ih _⟩
      · exact ih _

theorem base64EncodeBlockend_plain (state : Base64EncodeState) :
    0 ∉ base64EncodeBlockend state ∧ (base64EncodeBlockend state).length ≤ 3 := by
  have value := (base64EncodeValue_ne_zero state.result).symm
  rw [base64EncodeBlockend]
  split
  · exact ⟨by simp [value], by simp⟩
  · exact ⟨by simp [value], by simp⟩
  · exact ⟨List.not_mem_nil, by simp⟩

theorem cstr_terminated {text : List UInt8} (plain : 0 ∉ text) : cstr (text ++ [0]) = text := by
  rw [cstr_append_of_not_mem plain]
  exact List.append_nil text

theorem encodeLoop_nil (fuel : Nat) (state : Base64EncodeState) :
    encodeLoop fuel [] state = ([], state) := by
  cases fuel <;> rfl

/-- **The loop** is one encoding, and each block fits into the buffer with its NUL. -/
theorem encodeLoop_spec {fuel : Nat} : ∀ {data : List UInt8} {state : Base64EncodeState},
    data.length ≤ fuel → Between state →
      (encodeLoop fuel data state).1.flatten = (base64EncodeBlock data state).1 ∧
        (encodeLoop fuel data state).2 = (base64EncodeBlock data state).2 ∧
        ∀ block ∈ (encodeLoop fuel data state).1, block.length + 1 ≤ bufLength ∧ 0 ∉ block := by
  induction fuel with
  | zero =>
    intro data state enough between
    obtain rfl := List.length_eq_zero_iff.mp (Nat.le_zero.mp enough)
    exact ⟨rfl, rfl, fun _ none => absurd none List.not_mem_nil⟩
  | succ fuel ih =>
    intro data state enough between
    rw [encodeLoop]
    split
    · rename_i some
      have parts := base64EncodeBlock_append (data.take 36) (data.drop 36) state
      rw [List.take_append_drop] at parts
      obtain ⟨short, next⟩ := base64EncodeBlock_length (data.take 36) state between
      have room : (base64EncodeBlock (data.take 36) state).1.length + 1 ≤ bufLength := by
        have few : (data.take 36).length ≤ 36 := by
          rw [List.length_take]
          exact Nat.min_le_left _ _
        have size : bufLength = 50 := rfl
        split at short
        · rename_i lines
          have below := between.2 lines
          omega
        · omega
      -- A block that is not the last one is of whole groups.
      by_cases more : 36 ≤ data.length
      · have whole : (data.take 36).length = 36 := List.length_take_of_le more
        obtain ⟨flat, last, blocks⟩ := @ih (data.drop 36) (base64EncodeBlock (data.take 36) state).2
          (by rw [List.length_drop]; omega) (next (by rw [whole]))
        refine ⟨?_, ?_, ?_⟩
        · rw [parts]
          exact congrArg _ flat
        · rw [parts]
          exact last
        · intro block member
          rcases List.mem_cons.mp member with rfl | later
          · exact ⟨room, base64EncodeBlock_plain _ _⟩
          · exact blocks block later
      · have none : data.drop 36 = [] := List.drop_eq_nil_of_le (by omega)
        have all : data.take 36 = data := List.take_of_length_le (by omega)
        rw [all] at room
        have stops := encodeLoop_nil fuel (base64EncodeBlock data state).2
        change ((base64EncodeBlock (data.take 36) state).1 ::
            (encodeLoop fuel (data.drop 36) (base64EncodeBlock (data.take 36) state).2).1).flatten =
              _ ∧
          (encodeLoop fuel (data.drop 36) (base64EncodeBlock (data.take 36) state).2).2 = _ ∧
          ∀ block ∈ (base64EncodeBlock (data.take 36) state).1 ::
              (encodeLoop fuel (data.drop 36) (base64EncodeBlock (data.take 36) state).2).1, _
        rw [none, all, stops]
        refine ⟨List.flatten_singleton, rfl, fun block member => ?_⟩
        rw [List.mem_singleton.mp member]
        exact ⟨room, base64EncodeBlock_plain _ _⟩
    · rename_i none
      obtain rfl := List.length_eq_zero_iff.mp (by omega : data.length = 0)
      exact ⟨rfl, rfl, fun _ none => absurd none List.not_mem_nil⟩

/-- The standard encoding of the data, with a line feed behind each line of 54 bytes if there are
to be any. -/
def lines (data : List UInt8) (doNewLines : Bool) : List UInt8 :=
  if doNewLines then breakAfter 72 (data.length / 54) (Lib.Base64.encode data)
  else Lib.Base64.encode data

theorem encode_blocks {data : List UInt8} {init : Base64EncodeState} (between : Between init) :
    ((((encodeLoop data.length data init).1 ++
        [base64EncodeBlockend (encodeLoop data.length data init).2]).map (· ++ [0])).map
          cstr).flatten = codeFrom data init ∧
    ∀ write ∈ ((encodeLoop data.length data init).1 ++
        [base64EncodeBlockend (encodeLoop data.length data init).2]).map (· ++ [0]),
      write.length ≤ bufLength := by
  obtain ⟨flat, last, blocks⟩ := encodeLoop_spec (Nat.le_refl data.length) between
  have plain : ∀ block ∈ (encodeLoop data.length data init).1 ++
      [base64EncodeBlockend (encodeLoop data.length data init).2],
      block.length + 1 ≤ bufLength ∧ 0 ∉ block := by
    intro block member
    rcases List.mem_append.mp member with inside | ends
    · exact blocks block inside
    · obtain ⟨noNul, short⟩ := base64EncodeBlockend_plain (encodeLoop data.length data init).2
      rw [List.mem_singleton.mp ends]
      exact ⟨Nat.le_trans (Nat.succ_le_succ short) (by decide), noNul⟩
  constructor
  · have strings : (((encodeLoop data.length data init).1 ++
        [base64EncodeBlockend (encodeLoop data.length data init).2]).map (· ++ [0])).map cstr =
        (encodeLoop data.length data init).1 ++
          [base64EncodeBlockend (encodeLoop data.length data init).2] := by
      rw [List.map_map]
      exact (List.map_congr_left fun block member => cstr_terminated (plain block member).2).trans
        (List.map_id _)
    rw [strings, List.flatten_append, flat, last, List.flatten_singleton, codeFrom]
  · intro write member
    obtain ⟨block, inside, rfl⟩ := List.mem_map.mp member
    rw [List.length_append]
    exact (plain block inside).1

/-- Without line feeds, the string is the standard encoding. -/
theorem encode_nonewlines (data : List UInt8) :
    (encode data false true).base64 = Lib.Base64.encode data := by
  have between : Between initEncodestateNonewlines := ⟨rfl, fun no => absurd no (by decide)⟩
  exact (@encode_blocks data _ between).1.trans (codeFrom_nonewlines data 0 0)

end Esp8266.Source.Base64
