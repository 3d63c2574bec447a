import Mathlib.Data.Nat.Digits.Defs

/-!
# The chunked transfer coding

Each chunk is its size in hexadecimal, CR LF, its bytes and CR LF; one without bytes is the last.
-/
set_option autoImplicit false

namespace Esp8266.Lib.Chunked

/-! ## Hexadecimal numbers -/

def hexDigit (d : Nat) : UInt8 := if d < 10 then UInt8.ofNat (0x30 + d) else UInt8.ofNat (0x57 + d)

/-- The value of a digit in either case. -/
def digitValue (c : UInt8) : Option Nat :=
  if 0x30 ≤ c ∧ c ≤ 0x39 then some (c.toNat - 0x30)
  else if 0x61 ≤ c ∧ c ≤ 0x66 then some (c.toNat - 0x57)
  else if 0x41 ≤ c ∧ c ≤ 0x46 then some (c.toNat - 0x37)
  else none

/-- The digits of a number in lower case, without leading zeros. -/
def hexadecimal (n : Nat) : List UInt8 :=
  if n = 0 then [0x30] else (Nat.digits 16 n).reverse.map hexDigit

def hexValue (digits : List UInt8) : Nat :=
  digits.foldl (fun value c => 16 * value + (digitValue c).getD 0) 0

theorem digitValue_hexDigit : ∀ d, d < 16 → digitValue (hexDigit d) = some d := by
  decide

theorem digits_below {n d : Nat} (mem : d ∈ Nat.digits 16 n) : d < 16 :=
  Nat.digits_lt_base (by decide) mem

theorem hexadecimal_ne_nil (n : Nat) : hexadecimal n ≠ [] := by
  rw [hexadecimal]
  split
  · exact List.cons_ne_nil _ _
  · rename_i positive
    simpa using Nat.digits_ne_nil_iff_ne_zero.mpr positive

theorem isSome_of_mem_hexadecimal {n : Nat} {c : UInt8} (mem : c ∈ hexadecimal n) :
    (digitValue c).isSome := by
  rw [hexadecimal] at mem
  split at mem
  · obtain rfl := List.mem_singleton.mp mem
    rfl
  · obtain ⟨d, written, rfl⟩ := List.mem_map.mp mem
    rw [digitValue_hexDigit d (digits_below (List.mem_reverse.mp written))]
    rfl

/-- The value of the digits of a number is the number. -/
theorem hexValue_hexadecimal (n : Nat) : hexValue (hexadecimal n) = n := by
  have folded : ∀ digits : List Nat, (∀ d ∈ digits, d < 16) →
      hexValue (digits.reverse.map hexDigit) = Nat.ofDigits 16 digits := by
    intro digits
    induction digits with
    | nil => intro _; rfl
    | cons d rest ih =>
      intro below
      have value := ih fun d mem => below d (List.mem_cons_of_mem _ mem)
      rw [hexValue] at value ⊢
      rw [List.reverse_cons, List.map_append, List.foldl_append, value, Nat.ofDigits_cons]
      simp only [List.map_cons, List.map_nil, List.foldl_cons, List.foldl_nil,
        digitValue_hexDigit d (below d List.mem_cons_self), Option.getD_some]
      exact Nat.add_comm _ _
  rw [hexadecimal]
  split
  · rename_i zero
    rw [zero]
    rfl
  · rw [folded _ fun d mem => digits_below mem, Nat.ofDigits_digits]

/-! ## Chunks -/

def chunk (data : List UInt8) : List UInt8 :=
  hexadecimal data.length ++ 0x0d :: 0x0a :: (data ++ [0x0d, 0x0a])

/-- The size in front of a chunk, and what is behind its line. -/
def chunkSize (bytes : List UInt8) : Option (Nat × List UInt8) :=
  let digits := bytes.takeWhile fun c => (digitValue c).isSome
  match digits, bytes.drop digits.length with
  | _ :: _, 0x0d :: 0x0a :: rest => some (hexValue digits, rest)
  | _, _ => none

/-- The chunks of a body up to its last one, and what is behind it. -/
def decode : Nat → List UInt8 → Option (List (List UInt8) × List UInt8)
  | 0, _ => none
  | fuel + 1, bytes =>
    match chunkSize bytes with
    | none => none
    | some (size, rest) =>
      match rest.drop size with
      | 0x0d :: 0x0a :: behind =>
        if size = 0 then some ([], behind)
        else (decode fuel behind).map fun body => (rest.take size :: body.1, body.2)
      | _ => none

theorem chunkSize_hexadecimal (n : Nat) (rest : List UInt8) :
    chunkSize (hexadecimal n ++ 0x0d :: 0x0a :: rest) = some (n, rest) := by
  have digits : (hexadecimal n ++ 0x0d :: 0x0a :: rest).takeWhile
      (fun c => (digitValue c).isSome) = hexadecimal n := by
    rw [List.takeWhile_append_of_pos fun c mem => isSome_of_mem_hexadecimal mem,
      List.takeWhile_cons_of_neg (by decide), List.append_nil]
  rw [chunkSize, digits, List.drop_left, hexValue_hexadecimal]
  split
  · rename_i _ _ _ _ _ same
    cases same
    rfl
  · rename_i other
    obtain ⟨c, cs, split⟩ := List.exists_cons_of_ne_nil (hexadecimal_ne_nil n)
    exact absurd rfl (other c cs rest split)

theorem decode_chunk (data : List UInt8) (fuel : Nat) (rest : List UInt8) :
    decode (fuel + 1) (chunk data ++ rest) =
      if data = [] then some ([], rest)
      else (decode fuel rest).map fun body => (data :: body.1, body.2) := by
  have line : chunkSize (chunk data ++ rest) = some (data.length, data ++ 0x0d :: 0x0a :: rest) := by
    rw [chunk, List.append_assoc, List.cons_append, List.cons_append, chunkSize_hexadecimal,
      List.append_assoc]
    rfl
  rw [decode, line]
  dsimp only
  rw [List.drop_left, List.take_left]
  simp only [List.length_eq_zero_iff]

/-- **Chunks are decoded.** A body of chunks with a last one gives back the chunks. -/
theorem decode_chunks (chunks : List (List UInt8)) (rest : List UInt8) :
    ∀ fuel : Nat, chunks.length < fuel → (∀ data ∈ chunks, data ≠ []) →
      decode fuel (chunks.flatMap chunk ++ (chunk [] ++ rest)) = some (chunks, rest) := by
  induction chunks with
  | nil =>
    intro fuel enough _
    obtain _ | fuel := fuel
    · cases enough
    exact (decode_chunk [] fuel rest).trans (if_pos rfl)
  | cons data chunks ih =>
    intro fuel enough full
    obtain _ | fuel := fuel
    · cases enough
    rw [List.flatMap_cons, List.append_assoc, decode_chunk,
      if_neg (full data List.mem_cons_self),
      ih fuel (Nat.lt_of_succ_lt_succ enough) fun data mem => full data (List.mem_cons_of_mem _ mem)]
    rfl

end Esp8266.Lib.Chunked
