import PKernel.Machine
import Mathlib.Data.Nat.Digits.Lemmas

/-! # Numbers in decimal

`writestr.c`: a slice of the decimal digits of a number. All 20 digits are made first, from the
last one on, and those that lead are left out.
-/

namespace PKernel.Strings

/-- `'0'`. -/
def zeroChar : UInt8 := 48

/-- `(char) ('0' + digit)`. -/
def digitChar (digit : Nat) : UInt8 := zeroChar + UInt8.ofNat digit

/-- The first loop: so many digits of the number stand before the others. -/
def digitLoop : Nat → Nat → List UInt8 → List UInt8
  | 0, _, buffer => buffer
  | count + 1, num, buffer => digitLoop count (num / 10) (digitChar (num % 10) :: buffer)

/-- The second loop, which does not look at the last digit: `base`. -/
def leadingZeros (buffer : List UInt8) : Nat := ((buffer.take 19).takeWhile (· == zeroChar)).length

/-- The last loop, from `buffer[base]` on. -/
def copyLoop (source : List UInt8) (buf : Nat → UInt8) (size : Nat) : Nat → UInt8 :=
  (List.range size).foldl (fun buf i => Function.update buf i (source.getD i 0)) buf

/-- `writestr`: what it returns, and what is behind `buf` then. -/
def writestr (buf : Nat → UInt8) (size offset value : Nat) : Except Fault (Nat × (Nat → UInt8)) :=
  let buffer := digitLoop 20 value []
  let base := leadingZeros buffer
  let realSize := 20 - base
  if realSize ≤ offset then .ok (0, buf)
  else
    let size := if realSize ≤ u64 (size + offset) then realSize - offset else size
    -- a sum that wraps can let a larger size through
    if 20 < base + offset + size then .error .badPointer
    else .ok (size, copyLoop (buffer.drop (base + offset)) buf size)

/-- The characters that calls write one behind the other, each from where the last one ended. -/
def writeSlices (value : Nat) : List Nat → Nat → Except Fault (List UInt8)
  | [], _ => .ok []
  | size :: sizes, offset => do
      let (count, buf) ← writestr (fun _ => 0) size offset value
      let rest ← writeSlices value sizes (offset + count)
      return (List.range count).map buf ++ rest

/-! ## Decimal representations -/

/-- The digits without leading zeros, the most significant first. -/
def significant (value : Nat) : List UInt8 := (Nat.digits 10 value).reverse.map digitChar

/-- The decimal representation of a number. -/
def decimal (value : Nat) : List UInt8 := if value = 0 then [zeroChar] else significant value

/-- The number that digits stand for. -/
def readDecimal (chars : List UInt8) : Nat :=
  chars.foldl (fun value char => 10 * value + (char.toNat - zeroChar.toNat)) 0

/-- Digits, and none of them a leading zero. -/
structure Canonical (chars : List UInt8) : Prop where
  digits : ∀ char ∈ chars, zeroChar ≤ char ∧ char ≤ zeroChar + 9
  nonempty : chars ≠ []
  leading : chars.head? = some zeroChar → chars.length = 1

section Decimal

variable {value digit : Nat}

theorem toNat_digitChar (hdigit : digit < 10) : (digitChar digit).toNat = 48 + digit := by
  rw [digitChar, UInt8.toNat_add, UInt8.toNat_ofNat']
  change (48 + digit % 256) % 256 = 48 + digit
  omega

theorem digitChar_eq_zero (hdigit : digit < 10) : digitChar digit = zeroChar ↔ digit = 0 := by
  rw [← UInt8.toNat_inj, toNat_digitChar hdigit]
  change 48 + digit = 48 ↔ digit = 0
  omega

theorem readDecimal_append (chars : List UInt8) (hdigit : digit < 10) :
    readDecimal (chars ++ [digitChar digit]) = 10 * readDecimal chars + digit := by
  rw [readDecimal, List.foldl_append, ← readDecimal, List.foldl_cons, List.foldl_nil,
    toNat_digitChar hdigit]
  change 10 * readDecimal chars + (48 + digit - 48) = 10 * readDecimal chars + digit
  omega

theorem significant_step (hvalue : value ≠ 0) :
    significant value = significant (value / 10) ++ [digitChar (value % 10)] := by
  rw [significant, Nat.digits_def' (by decide) (Nat.pos_of_ne_zero hvalue), List.reverse_cons,
    List.map_append]
  rfl

theorem readDecimal_significant (value : Nat) : readDecimal (significant value) = value := by
  induction value using Nat.strongRecOn with
  | ind value ih =>
      by_cases hvalue : value = 0
      · rw [hvalue]
        rfl
      · rw [significant_step hvalue, readDecimal_append _ (Nat.mod_lt _ (by decide)),
          ih (value / 10) (by omega)]
        omega

theorem readDecimal_decimal (value : Nat) : readDecimal (decimal value) = value := by
  unfold decimal
  split
  next hvalue => rw [hvalue]; rfl
  next => exact readDecimal_significant value

theorem significant_ne_nil (hvalue : value ≠ 0) : significant value ≠ [] := by
  rw [significant_step hvalue]
  exact List.append_ne_nil_of_right_ne_nil _ (List.cons_ne_nil _ _)

/-- The first digit is not zero. -/
theorem head_significant (value : Nat) : (significant value).head? ≠ some zeroChar := by
  induction value using Nat.strongRecOn with
  | ind value ih =>
      by_cases hvalue : value = 0
      · rw [hvalue]
        decide
      · rw [significant_step hvalue]
        by_cases hsmall : value / 10 = 0
        · have hdigit : digitChar (value % 10) ≠ zeroChar := by
            rw [ne_eq, digitChar_eq_zero (Nat.mod_lt _ (by decide))]
            omega
          rw [hsmall]
          simpa [significant] using hdigit
        · rw [List.head?_append_of_ne_nil _ (significant_ne_nil hsmall)]
          exact ih (value / 10) (by omega)

theorem decimal_canonical (value : Nat) : Canonical (decimal value) := by
  unfold decimal
  split
  next =>
    exact ⟨List.forall_mem_singleton.mpr (by decide), List.cons_ne_nil _ _, fun _ => rfl⟩
  next hvalue =>
    refine ⟨fun char hchar => ?_, significant_ne_nil hvalue,
      fun hhead => absurd hhead (head_significant value)⟩
    obtain ⟨digit, hdigit, rfl⟩ := List.mem_map.mp hchar
    have hlt : digit < 10 := Nat.digits_lt_base (by decide) (List.mem_reverse.mp hdigit)
    rw [UInt8.le_iff_toNat_le, UInt8.le_iff_toNat_le, toNat_digitChar hlt]
    change 48 ≤ 48 + digit ∧ 48 + digit ≤ 57
    omega

theorem length_significant_le {count : Nat} (hvalue : value < 10 ^ count) :
    (significant value).length ≤ count := by
  rw [significant, List.length_map, List.length_reverse, Nat.digits_length_le_iff (by decide)]
  exact hvalue

end Decimal

/-! ## The loops -/

section Loops

variable {value : Nat}

/-- The digits of the buffer are those of the number behind zeros. -/
theorem digitLoop_eq {count : Nat} (hvalue : value < 10 ^ count) (buffer : List UInt8) :
    digitLoop count value buffer =
      List.replicate (count - (significant value).length) zeroChar ++ significant value ++ buffer := by
  induction count generalizing value buffer with
  | zero =>
      obtain rfl : value = 0 := by omega
      rfl
  | succ count ih =>
      have hnext : value / 10 < 10 ^ count := by
        rw [Nat.pow_succ] at hvalue
        omega
      rw [digitLoop, ih hnext]
      by_cases hzero : value = 0
      · subst hzero
        have hnone : significant 0 = [] := rfl
        have hdigit : digitChar (0 % 10) = zeroChar := by decide
        rw [Nat.zero_div, hnone, hdigit, List.length_nil, Nat.sub_zero, Nat.sub_zero,
          List.replicate_succ']
        simp
      · rw [significant_step hzero, List.length_append, List.length_singleton, Nat.add_sub_add_right]
        simp

/-- The second loop counts the zeros before the decimal representation. -/
theorem digitLoop_decimal (hvalue : value < 10 ^ 20) :
    ∃ zeros, digitLoop 20 value [] = List.replicate zeros zeroChar ++ decimal value ∧
      leadingZeros (digitLoop 20 value []) = zeros ∧ zeros + (decimal value).length = 20 := by
  have hlength := length_significant_le hvalue
  have hloop := digitLoop_eq hvalue []
  rw [List.append_nil] at hloop
  by_cases hzero : value = 0
  · subst hzero
    exact ⟨19, by decide, by decide, by decide⟩
  · have hne := significant_ne_nil hzero
    have hpos : 0 < (significant value).length := List.length_pos_iff.mpr hne
    have hdecimal : decimal value = significant value := if_neg hzero
    refine ⟨20 - (significant value).length, by rw [hloop, hdecimal], ?_, by rw [hdecimal]; omega⟩
    have hzeros : ∀ char ∈ List.replicate (20 - (significant value).length) zeroChar,
        (char == zeroChar) = true := by
      intro char hchar
      rw [List.eq_of_mem_replicate hchar]
      rfl
    rw [leadingZeros, hloop, List.take_append, List.length_replicate,
      List.take_of_length_le (by rw [List.length_replicate]; omega),
      List.takeWhile_append_of_pos hzeros, List.length_append, List.length_replicate]
    -- the first significant digit ends the loop, unless it is the last one
    have hstop : ((significant value).take (19 - (20 - (significant value).length))).takeWhile
        (· == zeroChar) = [] := by
      cases hsignificant : significant value with
      | nil => exact absurd hsignificant hne
      | cons first rest =>
          have hfirst := head_significant value
          rw [hsignificant, List.head?_cons, ne_eq, Option.some.injEq] at hfirst
          cases 19 - (20 - (first :: rest).length) with
          | zero => rfl
          | succ count => simp [hfirst]
    rw [hstop]
    rfl

/-- The last loop changes the places below the size. -/
theorem copyLoop_apply (source : List UInt8) (buf : Nat → UInt8) (size i : Nat) :
    copyLoop source buf size i = if i < size then source.getD i 0 else buf i := by
  induction size with
  | zero => simp [copyLoop]
  | succ size ih =>
      rw [copyLoop, List.range_succ, List.foldl_append, ← copyLoop, List.foldl_cons, List.foldl_nil]
      by_cases hlast : i = size
      · subst hlast
        rw [Function.update_self, if_pos (Nat.lt_succ_self i)]
      · rw [Function.update_of_ne hlast, ih]
        by_cases hlt : i < size
        · rw [if_pos hlt, if_pos (by omega)]
        · rw [if_neg hlt, if_neg (by omega)]

end Loops

/-! ## Slices -/

section Slices

variable {value size offset : Nat}

/-- A call writes the slice of the representation, as much of it as there is, and nothing else. -/
theorem writestr_eq (hvalue : value < 2 ^ 64) (hroom : size + offset < 2 ^ 64) (buf : Nat → UInt8) :
    ∃ after, writestr buf size offset value =
        .ok (min size ((decimal value).length - offset), after) ∧
      (List.range (min size ((decimal value).length - offset))).map after =
        ((decimal value).drop offset).take size ∧
      ∀ i, min size ((decimal value).length - offset) ≤ i → after i = buf i := by
  obtain ⟨zeros, hbuffer, hzeros, hlength⟩ :=
    digitLoop_decimal (Nat.lt_trans hvalue (by decide : 2 ^ 64 < 10 ^ 20))
  have hreal : 20 - zeros = (decimal value).length := by omega
  unfold writestr
  simp only [hzeros, hreal, u64_eq_self hroom]
  by_cases hend : (decimal value).length ≤ offset
  · have hnone : (decimal value).length - offset = 0 := Nat.sub_eq_zero_of_le hend
    refine ⟨buf, by rw [if_pos hend, hnone, Nat.min_zero], ?_, fun _ _ => rfl⟩
    rw [hnone, Nat.min_zero, List.drop_of_length_le hend, List.take_nil]
    rfl
  · have hsize : (if (decimal value).length ≤ size + offset then (decimal value).length - offset
        else size) = min size ((decimal value).length - offset) := by
      split <;> omega
    have hdrop : (digitLoop 20 value []).drop (zeros + offset) = (decimal value).drop offset := by
      rw [hbuffer, List.drop_append, List.length_replicate, Nat.add_sub_cancel_left,
        List.drop_of_length_le (by rw [List.length_replicate]; exact Nat.le_add_right _ _),
        List.nil_append]
    refine ⟨copyLoop ((decimal value).drop offset) buf (min size ((decimal value).length - offset)),
      ?_, ?_, fun i hi => ?_⟩
    · rw [if_neg hend, hsize, hdrop, if_neg (by omega)]
    · refine List.ext_getElem? fun i => ?_
      rw [List.getElem?_map, List.getElem?_take]
      by_cases hi : i < min size ((decimal value).length - offset)
      · have hin : i < ((decimal value).drop offset).length := by
          rw [List.length_drop]
          omega
        rw [List.getElem?_range hi, Option.map_some, copyLoop_apply, if_pos hi, if_pos (by omega),
          List.getD_eq_getElem?_getD, List.getElem?_eq_getElem hin, Option.getD_some]
      · rw [List.getElem?_eq_none (by rw [List.length_range]; omega), Option.map_none]
        split
        next hsmall =>
          rw [List.getElem?_eq_none (by rw [List.length_drop]; omega)]
        next => rfl
    · rw [copyLoop_apply, if_neg (Nat.not_lt.mpr hi)]

/-- A call for a whole number with room for 20 digits returns. -/
theorem writestr_returns (hsize : 20 ≤ size) (hroom : size < 2 ^ 64) (buf : Nat → UInt8)
    (value : Nat) : ∃ count after, writestr buf size 0 value = .ok (count, after) := by
  have hbase : leadingZeros (digitLoop 20 value []) ≤ 19 :=
    (List.takeWhile_prefix _).length_le.trans (List.length_take_le _ _)
  have hreal : 20 - leadingZeros (digitLoop 20 value []) ≤ size := by omega
  unfold writestr
  simp only [Nat.add_zero, u64_eq_self hroom, if_pos hreal]
  rw [if_neg (by omega), if_neg (by omega)]
  exact ⟨_, _, rfl⟩

/-- Slices one behind the other give the representation as far as they reach. -/
theorem writeSlices_eq (hvalue : value < 2 ^ 64) {sizes : List Nat}
    (hroom : ∀ size ∈ sizes, size + (decimal value).length < 2 ^ 64)
    (hoffset : offset ≤ (decimal value).length) :
    writeSlices value sizes offset = .ok (((decimal value).drop offset).take sizes.sum) := by
  induction sizes generalizing offset with
  | nil => rfl
  | cons size sizes ih =>
      have hsize := hroom size List.mem_cons_self
      obtain ⟨after, hcall, hslice, -⟩ :=
        @writestr_eq value size offset hvalue (by omega) fun _ => 0
      have hrest := @ih (offset + min size ((decimal value).length - offset))
        (fun other hother => hroom other (List.mem_cons_of_mem _ hother)) (by omega)
      rw [writeSlices, hcall, ok_bind]
      dsimp only
      rw [hrest, ok_bind, pure_eq_ok, hslice, List.sum_cons]
      congr 1
      by_cases hend : size ≤ (decimal value).length - offset
      · rw [Nat.min_eq_left hend, ← List.drop_drop, List.take_add]
      · rw [Nat.min_eq_right (by omega), Nat.add_sub_cancel' hoffset, List.drop_length, List.take_nil,
          List.append_nil, List.take_of_length_le (by rw [List.length_drop]; omega),
          List.take_of_length_le (by rw [List.length_drop]; omega)]

end Slices

/-- `writestr` writes slices of the one decimal representation without leading zeros that reads back
as the number, and slices one behind the other, of any sizes, come to the whole of it. -/
theorem writestr_decimal (value : Nat) (hvalue : value < 2 ^ 64) :
    Canonical (decimal value) ∧ readDecimal (decimal value) = value ∧
      (∀ buf size offset, size + offset < 2 ^ 64 →
        ∃ after, writestr buf size offset value =
            .ok (min size ((decimal value).length - offset), after) ∧
          (List.range (min size ((decimal value).length - offset))).map after =
            ((decimal value).drop offset).take size ∧
          ∀ i, min size ((decimal value).length - offset) ≤ i → after i = buf i) ∧
      ∀ sizes, (∀ size ∈ sizes, size + (decimal value).length < 2 ^ 64) →
        (decimal value).length ≤ sizes.sum → writeSlices value sizes 0 = .ok (decimal value) := by
  refine ⟨decimal_canonical value, readDecimal_decimal value,
    fun buf size offset hroom => writestr_eq hvalue hroom buf, fun sizes hroom hsum => ?_⟩
  rw [writeSlices_eq hvalue hroom (Nat.zero_le _), List.drop_zero, List.take_of_length_le hsum]

theorem writestr_decimal_largest : Canonical (decimal (2 ^ 64 - 1)) ∧
    readDecimal (decimal (2 ^ 64 - 1)) = 2 ^ 64 - 1 ∧
    (∀ buf size offset, size + offset < 2 ^ 64 →
      ∃ after, writestr buf size offset (2 ^ 64 - 1) =
          .ok (min size ((decimal (2 ^ 64 - 1)).length - offset), after) ∧
        (List.range (min size ((decimal (2 ^ 64 - 1)).length - offset))).map after =
          ((decimal (2 ^ 64 - 1)).drop offset).take size ∧
        ∀ i, min size ((decimal (2 ^ 64 - 1)).length - offset) ≤ i → after i = buf i) ∧
    ∀ sizes, (∀ size ∈ sizes, size + (decimal (2 ^ 64 - 1)).length < 2 ^ 64) →
      (decimal (2 ^ 64 - 1)).length ≤ sizes.sum →
        writeSlices (2 ^ 64 - 1) sizes 0 = .ok (decimal (2 ^ 64 - 1)) :=
  writestr_decimal (2 ^ 64 - 1) (by decide)

end PKernel.Strings
