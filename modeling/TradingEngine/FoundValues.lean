/-
What `findValue` returns on any bytes.

A sent message may hold anything in the texts of the session, so not all of it need be well-formed
fields.  Whatever the bytes, a value that is found either has a length close to 2^64 or ends at
the first SOH behind its beginning, and the fields that lie in the first chunk are found.

* `findValue_cut` — the length of a value that is found;
* `findValue_of_front` — fields in the first chunk, whatever stands behind them;
* `firstValue_of_walk` — in a well-formed message, what is found with a length that the message
  can hold is what the plain search finds.
-/
import TradingEngine.FindValue

namespace TradingEngine

section

variable {data : List UInt8} {len : ℕ}

/-! ### The length of a value -/

/-- A value with a length that wrapped around, or one without SOH. -/
def Cut (data : List UInt8) (val : ℕ × ℕ) : Prop :=
  2 ^ 63 ≤ val.2 ∨ soh ∉ (data.drop val.1).take val.2

theorem soh_notMem_scanTo (data : List UInt8) (len q : ℕ) :
    soh ∉ (data.drop q).take (scanTo soh data len q - q) := by
  have hprefix : ((data.take len).drop q).takeWhile (· ≠ soh) <+: data.drop q := by
    rw [List.drop_take]
    exact (List.takeWhile_prefix _).trans (List.take_prefix _ _)
  rw [scanTo, Nat.add_sub_cancel_left, ← List.prefix_iff_eq_take.mp hprefix]
  intro hmem
  have hne := List.mem_takeWhile_imp hmem
  exact absurd rfl (of_decide_eq_true hne)

/-- A value behind the `=` at `e` that ends at `s`. -/
theorem cut_valueRef {e s : ℕ} (hback : s ≤ e → e < s + 32)
    (hclear : e < s → soh ∉ (data.drop (e + 1)).take (s - (e + 1))) : Cut data (valueRef e s) := by
  by_cases hle : s ≤ e
  · have hnear := hback hle
    left
    show 2 ^ 63 ≤ (s + 2 ^ 64 - (e + 1)) % 2 ^ 64
    omega
  · right
    have hlen : (s + 2 ^ 64 - (e + 1)) % 2 ^ 64 ≤ s - (e + 1) := by omega
    intro hmem
    refine hclear (Nat.lt_of_not_le hle) ?_
    rw [← List.take_append_drop ((s + 2 ^ 64 - (e + 1)) % 2 ^ 64)
      ((data.drop (e + 1)).take (s - (e + 1))), List.take_take, Nat.min_eq_left hlen]
    exact List.mem_append_left _ hmem

theorem cut_scanTo (data : List UInt8) (len e : ℕ) :
    Cut data (valueRef e (scanTo soh data len (e + 1))) := by
  have hscan : e + 1 ≤ scanTo soh data len (e + 1) := Nat.le_add_right _ _
  exact cut_valueRef (fun hle => by omega) fun _ => soh_notMem_scanTo data len _

/-- The SOH that is taken in a chunk. -/
theorem cut_sohBehind (data : List UInt8) (len pos : ℕ) {eq : ℕ} (heq : eq < 32) :
    Cut data (valueRef (pos + eq)
      (sohBehind data len pos (offsetsOf soh ((data.drop pos).take 32)) eq)) := by
  rw [sohBehind]
  obtain ⟨offs, hoffs⟩ : ∃ offs, offs = (if eq = 31 then
      offsetsOf soh ((data.drop pos).take 32)
    else (offsetsOf soh ((data.drop pos).take 32)).filter (eq < ·)) := ⟨_, rfl⟩
  rw [← hoffs]
  have hsorted : offs.Pairwise (· < ·) := by
    rw [hoffs]
    split
    · exact offsetsOf_sorted _ _
    · exact (offsetsOf_sorted _ _).filter _
  cases offs with
  | nil => exact cut_scanTo data len (pos + eq)
  | cons k ks =>
    show Cut data (valueRef (pos + eq) (pos + k))
    refine cut_valueRef (fun _ => by omega) fun hlt hmem => ?_
    -- a SOH before the first one of the mask
    obtain ⟨j, hj⟩ := List.getElem?_of_mem hmem
    rw [List.getElem?_take] at hj
    split at hj
    · rename_i hbefore
      rw [List.getElem?_drop] at hj
      have hk : k < 32 ∧ eq + 1 + j < k := by
        have hin : k ∈ offsetsOf soh ((data.drop pos).take 32) := by
          have hhead : k ∈ k :: ks := List.mem_cons_self
          rw [hoffs] at hhead
          split at hhead
          · exact hhead
          · exact List.mem_of_mem_filter hhead
        exact ⟨(mem_offsetsOf.mp hin).1, by omega⟩
      have hearly : eq + 1 + j ∈ k :: ks := by
        have hsoh : eq + 1 + j ∈ offsetsOf soh ((data.drop pos).take 32) :=
          mem_offsetsOf.mpr ⟨by omega, by rw [← hj]; congr 1; omega⟩
        rw [hoffs, if_neg (by omega), List.mem_filter, decide_eq_true_iff]
        exact ⟨hsoh, by omega⟩
      rcases List.mem_cons.mp hearly with hfirst | hlater
      · omega
      · have hless := (List.pairwise_cons.mp hsorted).1 _ hlater
        omega
    · cases hj

theorem cut_chunkSoh (data : List UInt8) (len e : ℕ) :
    Cut data (valueRef e (chunkSoh data len e)) := by
  have hcut := cut_sohBehind data len (32 * (e / 32)) (Nat.mod_lt e (by omega : 0 < 32))
  rwa [Nat.div_add_mod] at hcut

theorem cut_scanEqs {wantTag : List UInt8} {es : List ℕ} {tagStart : ℕ} {val : ℕ × ℕ}
    (h : scanEqs data len wantTag es tagStart = .inl val) : Cut data val := by
  induction es generalizing tagStart with
  | nil => cases h
  | cons e es ih =>
    rw [scanEqs] at h
    split at h
    · cases h
      exact cut_chunkSoh data len e
    · exact ih h

theorem cut_scanRest {wantTag : List UInt8} {pos tagStart : ℕ} {val : ℕ × ℕ}
    (h : scanRest data len wantTag pos tagStart = some val) : Cut data val := by
  induction pos, tagStart using scanRest.induct data len wantTag with
  | case1 pos tagStart hpos eqPos hend =>
    rw [scanRest, if_pos hpos, if_pos hend] at h
    cases h
  | case2 pos tagStart hpos eqPos hend htag =>
    rw [scanRest, if_pos hpos, if_neg hend, if_pos htag] at h
    cases h
    exact cut_scanTo data len eqPos
  | case3 pos tagStart hpos eqPos hend sohPos htag ih =>
    rw [scanRest, if_pos hpos, if_neg hend, if_neg htag] at h
    exact ih h
  | case4 pos tagStart hpos =>
    rw [scanRest, if_neg hpos] at h
    cases h

/-- **The length of a value.**  Whatever the bytes are, a value that is found has a length of at
least 2^63, which no buffer holds, or it ends in front of the next SOH. -/
theorem findValue_cut {wantTag : List UInt8} {val : ℕ × ℕ}
    (h : findValue data len wantTag = some val) : Cut data val := by
  rw [findValue, scanChunks_eq] at h
  split at h
  · rename_i found hfound
    rw [Option.some.inj h] at hfound
    exact cut_scanEqs hfound
  · exact cut_scanRest h

/-! ### Fields in the first chunk -/

/-- The SOH behind `e` in the chunk of `e`. -/
theorem chunkSoh_of_inside {e k : ℕ} (hlt : e < k) (hsame : k < 32 * (e / 32) + 32)
    (hsoh : data[k]? = some soh) (hno : ∀ j, e < j → j < k → data[j]? ≠ some soh) :
    chunkSoh data len e = k := by
  have hdiv := Nat.div_add_mod e 32
  rw [chunkSoh, sohBehind, if_neg (by omega)]
  generalize hpos : 32 * (e / 32) = pos at hdiv hsame ⊢
  generalize hoff : e % 32 = off at hdiv ⊢
  have hmem : ∀ i, i ∈ (offsetsOf soh ((data.drop pos).take 32)).filter (off < ·) ↔
      off < i ∧ i < 32 ∧ data[pos + i]? = some soh := by
    intro i
    rw [List.mem_filter, mem_offsetsOf, decide_eq_true_iff]
    exact and_comm
  have hsorted : ((offsetsOf soh ((data.drop pos).take 32)).filter (off < ·)).Pairwise (· < ·) :=
    (offsetsOf_sorted _ _).filter _
  have hend : k - pos ∈ (offsetsOf soh ((data.drop pos).take 32)).filter (off < ·) := by
    rw [hmem, Nat.add_sub_cancel' (by omega)]
    exact ⟨by omega, by omega, hsoh⟩
  cases hoffs : (offsetsOf soh ((data.drop pos).take 32)).filter (off < ·) with
  | nil =>
    rw [hoffs] at hend
    cases hend
  | cons i is =>
    rw [hoffs] at hmem hsorted hend
    show pos + i = k
    obtain ⟨hbehind, -, hsohI⟩ := (hmem i).mp List.mem_cons_self
    have hle : pos + i ≤ k := by
      rcases List.mem_cons.mp hend with hfirst | hlater
      · omega
      · have hless := (List.pairwise_cons.mp hsorted).1 _ hlater
        omega
    by_contra hne
    exact hno (pos + i) (by omega) (by omega) hsohI

variable {wantTag : List UInt8} {fs : List TextField}

theorem scanEqs_front {p k : ℕ} {val : ℕ × ℕ} (h : Held data k p fs) (hk : k ≤ 32)
    (more : List ℕ) (hval : firstValue wantTag fs p = some val) :
    scanEqs data len wantTag (eqPlaces fs p ++ more) p = .inl val := by
  induction fs generalizing p with
  | nil => cases hval
  | cons f fs ih =>
    have hin := h.length_eq
    rw [messageText_cons, List.length_append, f.length_text] at hin
    have hend : chunkSoh data len (p + f.tag.length) = p + f.tag.length + 1 + f.value.length := by
      refine chunkSoh_of_inside (by omega) (by omega) ?_ fun j hj hlt => ?_
      · rw [getElem?_of_lt k (by omega)]
        exact h.getElem?_soh
      · rw [getElem?_of_lt k (by omega)]
        exact h.ne_soh (by omega) hlt
    rw [eqPlaces, List.cons_append, scanEqs, isTagAt_of_start h, hend]
    rw [firstValue] at hval
    by_cases hf : f.tag = wantTag
    · rw [if_pos hf] at hval
      rw [if_pos (decide_eq_true hf), valueRef, ← Option.some.inj hval]
      congr 2
      omega
    · rw [if_neg hf] at hval
      rw [if_neg (by rw [decide_eq_false hf]; exact Bool.false_ne_true),
        show p + f.tag.length + 1 + f.value.length + 1 = p + f.text.length by
          rw [f.length_text]; omega]
      exact ih h.tail hval

/-- **The first chunk.**  A message that begins with the fields `fs` of at most 32 bytes: what the
plain search finds in them is found, whatever follows. -/
theorem findValue_of_front {k : ℕ} {val : ℕ × ℕ} (h : Held data k 0 fs) (hk : k ≤ 32)
    (hlen : 32 ≤ len) (hval : firstValue wantTag fs 0 = some val) :
    findValue data len wantTag = some val := by
  have hsize := h.length_eq
  rw [Nat.zero_add] at hsize
  obtain ⟨m, hm⟩ : ∃ m, 32 * (len / 32) = k + m := ⟨32 * (len / 32) - k, by omega⟩
  have hplaces := filter_range'_eq h
  rw [hsize, ← List.range_eq_range'] at hplaces
  rw [findValue, scanChunks_eq, flatMap_offsetsOf, hm, List.range_add, List.filter_append, hplaces,
    scanEqs_front h hk _ hval]

/-! ### Well-formed messages -/

/-- A tag that no field has is not found. -/
theorem walk_of_absent {p tagStart : ℕ} {afterLast : Bool} (h : Held data len p fs)
    (hwant : equals ∉ wantTag) (habsent : wantTag ∉ fs.map TextField.tag)
    (hstart : StartsAt data p tagStart afterLast) :
    walk data len wantTag fs p tagStart = none := by
  induction fs generalizing p tagStart afterLast with
  | nil => rfl
  | cons f fs ih =>
    rw [List.map_cons, List.mem_cons, not_or] at habsent
    have hf : f.tag ≠ wantTag := fun heq => habsent.1 heq.symm
    rw [walk, isTagAt_of_startsAt h hwant hstart, decide_eq_false hf, Bool.false_and,
      if_neg Bool.false_ne_true]
    exact ih h.tail habsent.2 (startsAt_tail h)

/-- What is found with a length that the message can hold is the value of the field. -/
theorem firstValue_of_walk {p tagStart q n : ℕ} {afterLast : Bool} (h : Held data len p fs)
    (hwant : equals ∉ wantTag) (hsize : len < 2 ^ 62) (honce : (fs.map TextField.tag).Nodup)
    (hstart : StartsAt data p tagStart afterLast) (hn : n ≤ len)
    (hfound : walk data len wantTag fs p tagStart = some (q, n)) :
    firstValue wantTag fs p = some (q, n) := by
  induction fs generalizing p tagStart afterLast with
  | nil => cases hfound
  | cons f fs ih =>
    have hin := h.length_eq
    have htext := f.length_text
    rw [messageText_cons, List.length_append] at hin
    rw [List.map_cons, List.nodup_cons] at honce
    rw [walk, isTagAt_of_startsAt h hwant hstart] at hfound
    -- the field that is asked for, or one in front of it
    by_cases hf : f.tag = wantTag
    · rw [decide_eq_true hf, Bool.true_and] at hfound
      cases afterLast with
      | false =>
        rw [Bool.not_false, if_pos rfl, valueRef, Option.some.injEq, Prod.mk.injEq] at hfound
        by_cases hlast : EqLast len p f
        · -- a length that wrapped around is too large
          have hlt := endOf_of_last h hlast
          omega
        · have heq := endOf_of_not h hlast
          rw [firstValue, if_pos hf, Option.some.injEq, Prod.mk.injEq]
          omega
      | true =>
        rw [Bool.not_true, if_neg Bool.false_ne_true,
          walk_of_absent h.tail hwant (hf ▸ honce.1) (startsAt_tail h)] at hfound
        cases hfound
    · rw [decide_eq_false hf, Bool.false_and, if_neg Bool.false_ne_true] at hfound
      rw [firstValue, if_neg hf]
      exact ih h.tail honce.2 (startsAt_tail h) hfound

/-- Only the field with the tag and the one before it count. -/
theorem clearOfEdges_append {f g : TextField} {gs : List TextField} {p : ℕ} {afterLast : Bool}
    (habsent : wantTag ∉ fs.map TextField.tag) (hf : f.tag ≠ wantTag) (hg : g.tag = wantTag) :
    ClearOfEdges len wantTag afterLast (fs ++ f :: g :: gs) p ↔
      ¬EqLast len (p + (messageText fs).length) f ∧
        ¬EqLast len (p + (messageText fs).length + f.text.length) g := by
  induction fs generalizing p afterLast with
  | nil =>
    rw [List.nil_append, ClearOfEdges, if_neg hf, ClearOfEdges, if_pos hg, decide_eq_false_iff_not]
    rfl
  | cons e fs ih =>
    rw [List.map_cons, List.mem_cons, not_or] at habsent
    have he : e.tag ≠ wantTag := fun heq => habsent.1 heq.symm
    rw [List.cons_append, ClearOfEdges, if_neg he, ih habsent.2, messageText_cons,
      List.length_append, Nat.add_assoc p]

/-- The plain search finds the value of the first field with the tag, inside of the message. -/
theorem firstValue_of_find? {p : ℕ} {f : TextField} (h : Held data len p fs)
    (hfind : fs.find? (fun g => g.tag = wantTag) = some f) :
    ∃ q, firstValue wantTag fs p = some (q, f.value.length) ∧ q + f.value.length ≤ len ∧
      f.value <+: data.drop q := by
  induction fs generalizing p with
  | nil => cases hfind
  | cons g fs ih =>
    rw [List.find?_cons] at hfind
    by_cases hg : g.tag = wantTag
    · rw [decide_eq_true hg] at hfind
      obtain rfl := Option.some.inj hfind
      have hin := h.length_eq
      rw [messageText_cons, List.length_append, g.length_text] at hin
      refine ⟨p + g.tag.length + 1, by rw [firstValue, if_pos hg], by omega, ?_⟩
      have hrest : (data.take len).drop (p + g.tag.length + 1) =
          g.value ++ (soh :: messageText fs) := by
        rw [Nat.add_assoc, ← List.drop_drop, h.rest, messageText_cons, TextField.text]
        simp [List.drop_append]
      refine List.IsPrefix.trans ⟨soh :: messageText fs, hrest.symm⟩ ?_
      rw [List.drop_take]
      exact List.take_prefix _ _
    · rw [decide_eq_false hg] at hfind
      rw [firstValue, if_neg hg]
      exact ih h.tail hfind

/-- **Found with its text.**  In a message of well-formed fields with different tags, a value is
found with a length that the message can hold exactly when it is found where it stands. -/
theorem findValue_small_iff (h : Held data len 0 fs) (hwant : equals ∉ wantTag)
    (hsize : len < 2 ^ 62) (honce : (fs.map TextField.tag).Nodup) {q n : ℕ} (hn : n ≤ len)
    (hvalue : firstValue wantTag fs 0 = some (q, n)) :
    (∃ q', findValue data len wantTag = some (q', n)) ↔
      ClearOfEdges len wantTag false fs 0 := by
  have hstart : StartsAt data 0 0 false := .inl ⟨rfl, rfl⟩
  rw [findValue_eq_walk h, ← walk_eq_iff h hwant (by omega) hstart, hvalue]
  constructor
  · rintro ⟨q', hfound⟩
    rw [hfound, ← hvalue, firstValue_of_walk h hwant hsize honce hstart hn hfound]
  · intro hfound
    exact ⟨q, hfound⟩

end

end TradingEngine
