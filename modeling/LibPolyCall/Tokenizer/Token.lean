import LibPolyCall.Library.Scan

/-!
# Tokens

The types of `polycall_token.h` and the token array of `polycall_token.c`. The text of a string or
an identifier is a pointer into the input buffer of the tokenizer, so it is given here as its
offset there. A double is its 64 bits.
-/

namespace LibPolyCall.Tokenizer

/-- `PolycallTokenType`. -/
inductive PolycallTokenType where
  | invalid
  | identifier
  | number
  | string
  | operator
  | keyword
  | separator
  | comment
  | eof
deriving DecidableEq, Repr

/-- `PolycallValue`: the member of the union that its type names. -/
inductive PolycallValue where
  | none
  | integer (value : ℤ)
  | float (bits : UInt64)
  | string (data : ℕ) (length : UInt32)
  | identifier (data : ℕ) (length : UInt32)
deriving DecidableEq, Repr

/-- `PolycallToken`. -/
structure PolycallToken where
  value : PolycallValue
  type : PolycallTokenType
  flags : UInt32
  line : UInt32
  column : UInt32
  length : UInt32
deriving DecidableEq, Repr

/-- `PolycallTokenArray`: the tokens below `count`, and the capacity. -/
structure PolycallTokenArray where
  tokens : List PolycallToken
  capacity : UInt32
  /-- `count` stays within the capacity. -/
  count_le : tokens.length ≤ capacity.toNat
deriving DecidableEq, Repr

namespace PolycallTokenArray

/-- `polycall_token_create_array`, where the allocations succeed. -/
def create (capacity : UInt32) : PolycallTokenArray :=
  ⟨[], if capacity = 0 then 16 else capacity, Nat.zero_le _⟩

/-- `if (count < capacity) tokens[count++] = token`. -/
def add (array : PolycallTokenArray) (token : PolycallToken) : PolycallTokenArray :=
  if h : array.tokens.length < array.capacity.toNat then
    ⟨array.tokens ++ [token], array.capacity, by
      rw [List.length_append, List.length_singleton]
      exact h⟩
  else array

/-- The array with these tokens behind its own, as far as they fit. -/
def addAll (array : PolycallTokenArray) (tokens : List PolycallToken) : PolycallTokenArray :=
  ⟨(array.tokens ++ tokens).take array.capacity.toNat, array.capacity, List.length_take_le _ _⟩

/-- Two arrays are equal if their tokens and capacities are. -/
theorem ext_tokens {a b : PolycallTokenArray} (htokens : a.tokens = b.tokens)
    (hcapacity : a.capacity = b.capacity) : a = b := by
  obtain ⟨_, _, _⟩ := a
  obtain ⟨_, _, _⟩ := b
  obtain rfl := htokens
  obtain rfl := hcapacity
  rfl

/-- A token leaves the capacity. -/
theorem capacity_add (array : PolycallTokenArray) (token : PolycallToken) :
    (array.add token).capacity = array.capacity := by
  unfold add
  split_ifs <;> rfl

/-- A token is added behind the others, or there is no room for it. -/
theorem tokens_add (array : PolycallTokenArray) (token : PolycallToken) :
    (array.add token).tokens =
      if array.tokens.length < array.capacity.toNat then array.tokens ++ [token]
      else array.tokens := by
  unfold add
  split_ifs <;> rfl

/-- The tokens that are stored stay where they are. -/
theorem prefix_add (array : PolycallTokenArray) (token : PolycallToken) :
    array.tokens <+: (array.add token).tokens := by
  rw [tokens_add]
  split_ifs
  · exact List.prefix_append _ _
  · exact List.prefix_rfl

/-- Without tokens the array is as it was. -/
theorem addAll_nil (array : PolycallTokenArray) : array.addAll [] = array := by
  refine ext_tokens ?_ rfl
  show (array.tokens ++ []).take _ = _
  rw [List.append_nil, List.take_of_length_le array.count_le]

/-- A token that does not fit any more is followed by none that fits. -/
theorem addAll_add (array : PolycallTokenArray) (token : PolycallToken)
    (tokens : List PolycallToken) :
    (array.add token).addAll tokens = array.addAll (token :: tokens) := by
  unfold add
  split_ifs with h
  · refine ext_tokens ?_ rfl
    show (array.tokens ++ [token] ++ tokens).take _ = (array.tokens ++ token :: tokens).take _
    rw [List.append_assoc, List.singleton_append]
  · have hfull : array.tokens.length = array.capacity.toNat :=
      le_antisymm array.count_le (not_lt.1 h)
    refine ext_tokens ?_ rfl
    show (array.tokens ++ tokens).take _ = (array.tokens ++ token :: tokens).take _
    rw [← hfull, List.take_left, List.take_left]

/-- A token behind all the others. -/
theorem add_addAll (array : PolycallTokenArray) (tokens : List PolycallToken)
    (token : PolycallToken) :
    (array.addAll tokens).add token = array.addAll (tokens ++ [token]) := by
  induction tokens generalizing array with
  | nil => rw [addAll_nil, List.nil_append, ← addAll_add, addAll_nil]
  | cons first tokens ih => rw [List.cons_append, ← addAll_add, ← addAll_add, ih]

end PolycallTokenArray

end LibPolyCall.Tokenizer
