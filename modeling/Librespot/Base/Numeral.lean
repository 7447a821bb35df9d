import Mathlib.Data.Nat.Digits.Lemmas

/-! # Positional numerals, the most significant digit first -/

open List

namespace Base.Numeral

def value (b : Nat) (digits : List Nat) : Nat := digits.foldl (fun n d => b * n + d) 0

theorem value_eq_ofDigits (b : Nat) (digits : List Nat) :
    value b digits = Nat.ofDigits b digits.reverse := by
  rw [Nat.ofDigits_eq_foldr, foldr_reverse, value]
  simp only [Nat.cast_id, Nat.add_comm]

theorem value_map_foldl {α : Type} (b : Nat) (f : α → Nat) (l : List α) :
    l.foldl (fun n a => b * n + f a) 0 = value b (l.map f) := by
  rw [value, foldl_map]

theorem value_zeros_append (b k : Nat) (digits : List Nat) :
    value b (List.replicate k 0 ++ digits) = value b digits := by
  rw [value_eq_ofDigits, value_eq_ofDigits, reverse_append, reverse_replicate,
    Nat.ofDigits_append_replicate_zero]

theorem value_digits (b n : Nat) : value b (Nat.digits b n).reverse = n := by
  rw [value_eq_ofDigits, reverse_reverse, Nat.ofDigits_digits]

variable {b k : Nat} {digits : List Nat}

theorem value_lt (hb : 1 < b) (h : ∀ d ∈ digits, d < b) : value b digits < b ^ digits.length := by
  rw [value_eq_ofDigits, ← length_reverse]
  exact Nat.ofDigits_lt_base_pow_length hb fun d hd => h d (mem_reverse.mp hd)

def expand (b k n : Nat) : List Nat := (List.range k).map fun i => n / b ^ (k - 1 - i) % b

theorem value_append_one (b : Nat) (digits : List Nat) (d : Nat) :
    value b (digits ++ [d]) = b * value b digits + d := by
  rw [value, foldl_append, foldl_cons, foldl_nil, value]

theorem expand_value (hb : 1 < b) (h : ∀ d ∈ digits, d < b) :
    expand b digits.length (value b digits) = digits := by
  induction digits using List.reverseRecOn with
  | nil => rfl
  | append_singleton digits d ih =>
    have hd : d < b := h d (by simp)
    have hdiv : (b * value b digits + d) / b = value b digits := by
      rw [Nat.mul_add_div (by omega), Nat.div_eq_of_lt hd, Nat.add_zero]
    have hmod : (b * value b digits + d) % b = d := by
      rw [Nat.mul_add_mod, Nat.mod_eq_of_lt hd]
    have hinit : (List.range digits.length).map
        (fun i => (b * value b digits + d) / b ^ (digits.length - i) % b) = digits := by
      refine Eq.trans (map_congr_left fun i hi => ?_) (ih fun e he => h e (by simp [he]))
      have hlt := mem_range.mp hi
      have hexp : digits.length - i = digits.length - 1 - i + 1 := by omega
      rw [hexp, pow_succ', ← Nat.div_div_eq_div_mul, hdiv]
    rw [value_append_one, expand, length_append, length_singleton, range_succ, map_append,
      map_singleton, Nat.add_sub_cancel, Nat.sub_self, pow_zero, Nat.div_one, hmod, hinit]

theorem value_append (b : Nat) (xs ys : List Nat) :
    value b (xs ++ ys) = b ^ ys.length * value b xs + value b ys := by
  rw [value_eq_ofDigits, value_eq_ofDigits, value_eq_ofDigits, reverse_append,
    Nat.ofDigits_append, length_reverse, Nat.add_comm]

theorem expand_succ (b k n : Nat) : expand b (k + 1) n = expand b k (n / b) ++ [n % b] := by
  rw [expand, range_succ, map_append, map_singleton, Nat.add_sub_cancel,
    Nat.sub_self, pow_zero, Nat.div_one, expand]
  refine congrArg (· ++ [n % b]) (map_congr_left fun i hi => ?_)
  have hlt := mem_range.mp hi
  have hexp : k - i = k - 1 - i + 1 := by omega
  rw [hexp, pow_succ', Nat.div_div_eq_div_mul]

theorem value_expand {n : Nat} (h : n < b ^ k) : value b (expand b k n) = n := by
  induction k generalizing n with
  | zero =>
    rw [pow_zero, Nat.lt_one_iff] at h
    rw [h]
    rfl
  | succ _ ih =>
    rw [pow_succ] at h
    rw [expand_succ, value_append_one, ih (Nat.div_lt_of_lt_mul (Nat.mul_comm _ _ ▸ h))]
    exact Nat.div_add_mod n b

theorem value_cons (b d : Nat) (digits : List Nat) :
    value b (d :: digits) = b ^ digits.length * d + value b digits := by
  rw [← singleton_append, value_append]
  simp [value]

theorem value_lt_value_iff (hb : 1 < b) {xs ys : List Nat} (hx : ∀ d ∈ xs, d < b)
    (hy : ∀ d ∈ ys, d < b) (hlen : xs.length = ys.length) :
    value b xs < value b ys ↔ List.Lex (· < ·) xs ys := by
  induction xs generalizing ys with
  | nil =>
    obtain rfl : ys = [] := length_eq_zero_iff.mp hlen.symm
    exact ⟨fun h => absurd h (lt_irrefl _), fun h => nomatch h⟩
  | cons x xs ih =>
    cases ys with
    | nil => simp at hlen
    | cons y ys =>
      have hlen : xs.length = ys.length := by simpa using hlen
      have hxs : value b xs < b ^ ys.length :=
        hlen ▸ value_lt hb fun d hd => hx d (mem_cons_of_mem _ hd)
      have hys : value b ys < b ^ ys.length :=
        value_lt hb fun d hd => hy d (mem_cons_of_mem _ hd)
      have ih := ih (fun d hd => hx d (mem_cons_of_mem _ hd))
        (fun d hd => hy d (mem_cons_of_mem _ hd)) hlen
      rw [value_cons, value_cons, hlen, cons_lex_cons_iff, ← ih]
      rcases lt_trichotomy x y with hlt | rfl | hgt
      · have hstep := Nat.mul_le_mul_left (b ^ ys.length) (Nat.succ_le_of_lt hlt)
        rw [Nat.mul_succ] at hstep
        constructor
        · exact fun _ => .inl hlt
        · intro _
          omega
      · constructor
        · intro h
          exact .inr ⟨rfl, by omega⟩
        · rintro (h | ⟨-, h⟩)
          · exact absurd h (lt_irrefl x)
          · omega
      · have hstep := Nat.mul_le_mul_left (b ^ ys.length) (Nat.succ_le_of_lt hgt)
        rw [Nat.mul_succ] at hstep
        constructor
        · intro h
          omega
        · rintro (h | ⟨rfl, -⟩)
          · omega
          · exact absurd hgt (lt_irrefl x)

theorem le_value {d : Nat} (hd : d ≠ 0) : b ^ digits.length ≤ value b (d :: digits) := by
  rw [value_cons]
  exact (Nat.le_mul_of_pos_right _ (Nat.pos_of_ne_zero hd)).trans (Nat.le_add_right _ _)

def ofBytes (bytes : List UInt8) : Nat := value 256 (bytes.map UInt8.toNat)

def toBytes (k n : Nat) : List UInt8 := (expand 256 k n).map UInt8.ofNat

theorem length_toBytes (k n : Nat) : (toBytes k n).length = k := by simp [toBytes, expand]

theorem ofBytes_toBytes {n : Nat} (h : n < 256 ^ k) : ofBytes (toBytes k n) = n := by
  have hbytes : (toBytes k n).map UInt8.toNat = expand 256 k n := by
    unfold toBytes expand
    rw [List.map_map, List.map_map]
    exact map_congr_left fun i _ => by simp
  rw [ofBytes, hbytes]
  exact value_expand h

theorem digits_lt (bytes : List UInt8) : ∀ d ∈ bytes.map UInt8.toNat, d < 256 := by
  intro d hd
  obtain ⟨b, -, rfl⟩ := List.mem_map.mp hd
  exact b.toNat_lt

theorem ofBytes_lt {bytes : List UInt8} (h : bytes.length = k) : ofBytes bytes < 256 ^ k := by
  have hlt := value_lt (b := 256) (by decide) (digits_lt bytes)
  rwa [length_map, h] at hlt

theorem toBytes_ofBytes {bytes : List UInt8} (h : bytes.length = k) :
    toBytes k (ofBytes bytes) = bytes := by
  have hexpand := expand_value (b := 256) (by decide) (digits_lt bytes)
  rw [length_map, h] at hexpand
  rw [toBytes, ofBytes, hexpand, List.map_map]
  exact map_id'' (fun d => UInt8.ofNat_toNat) bytes

theorem ofBytes_append (xs ys : List UInt8) :
    ofBytes (xs ++ ys) = 256 ^ ys.length * ofBytes xs + ofBytes ys := by
  rw [ofBytes, map_append, value_append, length_map]
  rfl

end Base.Numeral
