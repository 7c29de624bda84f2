/-
What OUCH requests carry of earlier orders.

A buffer of the builders holds what the last request in it left.  A request overwrites each
field, but token and symbol only up to their real lengths: behind a short one stands what
an earlier order had there.

* `Bist.Clean` — what no request to BIST overwrites stays as it was filled in advance;
* `Bist.msg_eq`, `Nasdaq.msg_eq` — a request that fills its fields is the same after all
  histories;
* `Bist.historyFree_iff`, `Nasdaq.historyFree_iff` — one with a short token or symbol is not;
* `ouch_requests_historyFree_iff` — both together.
-/
import TradingEngine.FallibleRun
import TradingEngine.OuchBytes

namespace TradingEngine

open BytePatches Endian FallibleRun

/-! ### One message in one buffer -/

theorem readArray_ok {bytes cells : List UInt8} {len : UInt8}
    (h : readArray bytes len = .ok cells) : len.toNat ≤ 32 ∧ cells = copyField bytes len := by
  unfold readArray at h
  split at h
  · rename_i hle
    exact ⟨hle, (Except.ok.inj h).symm⟩
  · cases h

section Store

variable {n : ℕ} {r r' : Ring 2 n UInt8} {len : UInt16} {ps : List (Patch UInt8)}

theorem storeMessage_ok {msg : List UInt8} (h : storeMessage r len ps = .ok (r', msg)) :
    r' = r.write (sbtHeader len :: ps) ∧
      msg = message (r.written (sbtHeader len :: ps)) len.toNat := by
  unfold storeMessage at h
  dsimp only at h
  split at h
  · obtain ⟨hr, hmsg⟩ := Prod.mk.inj (Except.ok.inj h)
    exact ⟨hr.symm, hmsg.symm⟩
  · cases h

theorem storeMessage_of_fits (r : Ring 2 n UInt8) (len : UInt16) {ps : List (Patch UInt8)}
    (h : ∀ p ∈ sbtHeader len :: ps, p.pos + p.cells.length ≤ n) :
    storeMessage r len ps = .ok (r.write (sbtHeader len :: ps),
      message (r.written (sbtHeader len :: ps)) len.toNat) := if_pos h

/-- Whether a message fits does not depend on the buffer. -/
theorem storeMessage_map_eq
    (h : message (r.written (sbtHeader len :: ps)) len.toNat =
      message (r'.written (sbtHeader len :: ps)) len.toNat) :
    (storeMessage r len ps).map Prod.snd = (storeMessage r' len ps).map Prod.snd := by
  unfold storeMessage
  dsimp only
  split
  · exact congrArg Except.ok h
  · rfl

/-- A place that the message does not cover shows what the buffer held. -/
theorem storeMessage_map_ne {i : Fin n}
    (hfits : ∀ p ∈ sbtHeader len :: ps, p.pos + p.cells.length ≤ n) (hi : i.val < len.toNat)
    (hcovered : ¬CoveredBy (sbtHeader len :: ps) i)
    (hne : r.buffers r.slot i ≠ r'.buffers r'.slot i) :
    (storeMessage r len ps).map Prod.snd ≠ (storeMessage r' len ps).map Prod.snd := by
  rw [storeMessage_of_fits r len hfits, storeMessage_of_fits r' len hfits]
  intro h
  have hplace := (message_eq_iff _ _ _).mp (Except.ok.inj h) i hi
  rw [Ring.written, Ring.written, patches_eq_iff] at hplace
  exact hplace.elim hcovered hne

end Store

/-- An order whose symbol and token are full of `A`. -/
def marked (type tokenLen : UInt8) : OuchSlot where
  order := { messageType := type, symbol := List.replicate 32 65 }
  own :=
    { realSymbolLen := 8, realClOrdTokenLen := tokenLen, clientOrderToken := List.replicate 32 65 }

/-- The token and the symbol of the order fit the fields of OUCH. -/
def OuchSlot.Within (o : OuchSlot) : Prop :=
  o.own.realClOrdTokenLen.toNat ≤ 14 ∧ o.own.realSymbolLen.toNat ≤ 8

theorem within_marked (type : UInt8) :
    ∀ x ∈ [marked type 14, marked type 14], x.Within := by
  intro x hx
  rcases List.mem_pair.mp hx with rfl | rfl
  · exact ⟨le_rfl, le_rfl⟩
  · exact ⟨le_rfl, le_rfl⟩

theorem eq_of_mem_marked {len c : UInt8} (hlen : len.toNat ≤ 32)
    (hc : c ∈ copyField (List.replicate 32 65) len) : c = 65 := by
  rw [copyField, List.take_append_of_le_length (by rw [List.length_replicate]; exact hlen)] at hc
  exact List.eq_of_mem_replicate (List.mem_of_mem_take hc)

/-- What is done to the buffers does not change the message. -/
theorem map_snd_bind {R B M : Type} (x : Except Fault (R × M)) (f : R → B) :
    (x >>= fun p => Except.ok (f p.1, p.2)).map Prod.snd = x.map Prod.snd := by
  cases x with
  | error e => rfl
  | ok p => rfl

/-! ### BIST -/

namespace Bist

variable {eci : List ExchangeClientInfo} {o : OuchSlot} {b b' : OuchBuilder}

/-- The places of `Buffer_OBT_Enter` that `buildEnterOrder` leaves alone. -/
def EnterConstant (i : ℕ) : Prop := i = 3 ∨ i = 36 ∨ (53 ≤ i ∧ i < 68) ∨ 100 ≤ i

/-- The places of `Buffer_OBT_Replace` that `buildReplaceOrder` leaves alone, as long as
the token does not reach behind its field. -/
def ReplaceConstant (i : ℕ) : Prop := i = 3 ∨ i = 44 ∨ (61 ≤ i ∧ i < 76) ∨ 117 ≤ i

theorem covered_enter {ps : List (Patch UInt8)} (h : buildEnterOrder eci o = .ok ps) (i : ℕ) :
    o.own.realClOrdTokenLen.toNat ≤ 32 ∧
      (CoveredBy (sbtHeader 117 :: ps) i ↔
        i < 3 ∨ (4 ≤ i ∧ i < 4 + o.own.realClOrdTokenLen.toNat) ∨ (18 ≤ i ∧ i < 36) ∨
          (37 ≤ i ∧ i < 53) ∨ (68 ≤ i ∧ i < 100)) := by
  obtain ⟨token, htoken, h⟩ := bind_eq_ok_iff.mp h
  obtain ⟨e, -, h⟩ := bind_eq_ok_iff.mp h
  obtain ⟨hlen, rfl⟩ := readArray_ok htoken
  rw [← Except.ok.inj h]
  refine ⟨hlen, ?_⟩
  simp only [sbtHeader, enterFields, covered_cons, covered_nil, length_copyField,
    length_writeU16be, length_writeU32be, length_writeU64be, length_writeI32be,
    Vector.length_toList, List.length_append, List.length_singleton, or_false]
  omega

theorem covered_replace {ps : List (Patch UInt8)} (h : buildReplaceOrder eci o = .ok ps) (i : ℕ) :
    o.own.realClOrdTokenLen.toNat ≤ 32 ∧
      (CoveredBy (sbtHeader 125 :: ps) i ↔
        i < 3 ∨ (4 ≤ i ∧ i < 18 + o.own.realClOrdTokenLen.toNat) ∨ (32 ≤ i ∧ i < 44) ∨
          (45 ≤ i ∧ i < 61) ∨ (76 ≤ i ∧ i < 117)) := by
  obtain ⟨token, htoken, h⟩ := bind_eq_ok_iff.mp h
  obtain ⟨e, -, h⟩ := bind_eq_ok_iff.mp h
  obtain ⟨hlen, rfl⟩ := readArray_ok htoken
  rw [← Except.ok.inj h]
  refine ⟨hlen, ?_⟩
  simp only [sbtHeader, replaceFields, covered_cons, covered_nil, length_copyField,
    length_writeU16be, length_writeU64be, length_writeI32be, Vector.length_toList,
    List.length_append, List.length_singleton, or_false, show (14 : UInt8).toNat = 14 from rfl]
  omega

theorem covered_cancel (o : OuchSlot) (i : ℕ) :
    CoveredBy (sbtHeader 18 :: buildCancelOrder o) i ↔ i < 3 ∨ (4 ≤ i ∧ i < 18) := by
  simp only [sbtHeader, buildCancelOrder, covered_cons, covered_nil, length_copyField,
    length_writeU16be, List.length_append, List.length_singleton, or_false,
    show (14 : UInt8).toNat = 14 from rfl]
  omega

theorem covered_cancelid (o : OuchSlot) (i : ℕ) :
    CoveredBy (sbtHeader 17 :: buildCancelByOrderID o) i ↔ i < 3 ∨ (4 ≤ i ∧ i < 17) := by
  simp only [sbtHeader, buildCancelByOrderID, covered_cons, covered_nil, length_writeU16be,
    length_writeU32be, length_writeU64be, List.length_append, List.length_singleton, or_false]
  omega

/-- What a build does. -/
theorem build_cases {msg : List UInt8} (h : b.build o = .ok (b', msg)) :
    (o.order.messageType.toNat = 0 ∧ ∃ ps, buildEnterOrder b.eciLocal o = .ok ps ∧
      b' = { b with enterMessages := b.enterMessages.write (sbtHeader 117 :: ps) }) ∨
    (o.order.messageType.toNat = 1 ∧ ∃ ps, buildReplaceOrder b.eciLocal o = .ok ps ∧
      b' = { b with replaceMessages := b.replaceMessages.write (sbtHeader 125 :: ps) }) ∨
    (o.order.messageType.toNat = 2 ∧ b' = { b with
      cancelMessages := b.cancelMessages.write (sbtHeader 18 :: buildCancelOrder o) }) ∨
    (o.order.messageType.toNat = 3 ∧ b' = { b with
      cancelidMessages := b.cancelidMessages.write (sbtHeader 17 :: buildCancelByOrderID o) }) := by
  unfold OuchBuilder.build at h
  split at h
  · rename_i htype
    obtain ⟨ps, hps, h⟩ := bind_eq_ok_iff.mp h
    obtain ⟨⟨r, msg'⟩, hstore, h⟩ := bind_eq_ok_iff.mp h
    exact .inl ⟨htype, ps, hps, by
      rw [← (Prod.mk.inj (Except.ok.inj h)).1, (storeMessage_ok hstore).1]⟩
  · rename_i htype
    obtain ⟨ps, hps, h⟩ := bind_eq_ok_iff.mp h
    obtain ⟨⟨r, msg'⟩, hstore, h⟩ := bind_eq_ok_iff.mp h
    exact .inr (.inl ⟨htype, ps, hps, by
      rw [← (Prod.mk.inj (Except.ok.inj h)).1, (storeMessage_ok hstore).1]⟩)
  · rename_i htype
    obtain ⟨⟨r, msg'⟩, hstore, h⟩ := bind_eq_ok_iff.mp h
    exact .inr (.inr (.inl ⟨htype, by
      rw [← (Prod.mk.inj (Except.ok.inj h)).1, (storeMessage_ok hstore).1]⟩))
  · rename_i htype
    obtain ⟨⟨r, msg'⟩, hstore, h⟩ := bind_eq_ok_iff.mp h
    exact .inr (.inr (.inr ⟨htype, by
      rw [← (Prod.mk.inj (Except.ok.inj h)).1, (storeMessage_ok hstore).1]⟩))
  · cases h

/-- The account data are those of the start, and what no Enter or Cancel overwrites is as it
was filled in advance. -/
structure Clean (eci : List ExchangeClientInfo) (b : OuchBuilder) : Prop where
  eciLocal : b.eciLocal = eci
  enter : ∀ i : Fin 117, EnterConstant i → b.enterMessages.Keeps i (enterBuffer i)
  cancel : b.cancelMessages.Keeps 3 (cancelBuffer 3)
  cancelid : b.cancelidMessages.Keeps 3 (cancelidBuffer 3)

/-- What no Replace with a token of its field's length overwrites. -/
def CleanReplace (b : OuchBuilder) : Prop :=
  ∀ i : Fin 125, ReplaceConstant i → b.replaceMessages.Keeps i (replaceBuffer i)

theorem clean_start (eci : List ExchangeClientInfo) : Clean eci { eciLocal := eci } :=
  ⟨rfl, fun _ _ _ => rfl, fun _ => rfl, fun _ => rfl⟩

theorem cleanReplace_start (eci : List ExchangeClientInfo) :
    CleanReplace { eciLocal := eci } := fun _ _ _ => rfl

theorem clean_build {msg : List UInt8} (h : Clean eci b) (hbuild : b.build o = .ok (b', msg)) :
    Clean eci b' := by
  obtain ⟨-, ps, hps, rfl⟩ | ⟨-, ps, -, rfl⟩ | ⟨-, rfl⟩ | ⟨-, rfl⟩ := build_cases hbuild
  · refine ⟨h.eciLocal, fun i hi => (h.enter i hi).write ?_, h.cancel, h.cancelid⟩
    obtain ⟨hlen, hcovered⟩ := covered_enter hps i
    rw [hcovered]
    unfold EnterConstant at hi
    omega
  · exact ⟨h.eciLocal, h.enter, h.cancel, h.cancelid⟩
  · refine ⟨h.eciLocal, h.enter, h.cancel.write ?_, h.cancelid⟩
    rw [covered_cancel]
    decide
  · refine ⟨h.eciLocal, h.enter, h.cancel, h.cancelid.write ?_⟩
    rw [covered_cancelid]
    decide

theorem cleanReplace_build {msg : List UInt8} (h : CleanReplace b)
    (hlen : o.own.realClOrdTokenLen.toNat ≤ 14) (hbuild : b.build o = .ok (b', msg)) :
    CleanReplace b' := by
  obtain ⟨-, ps, -, rfl⟩ | ⟨-, ps, hps, rfl⟩ | ⟨-, rfl⟩ | ⟨-, rfl⟩ := build_cases hbuild
  · exact h
  · intro i hi
    refine (h i hi).write ?_
    rw [(covered_replace hps i).2]
    unfold ReplaceConstant at hi
    omega
  · exact h
  · exact h

/-! ### Histories -/

namespace OuchBuilder

/-- The builder after some builds. -/
def run (b : OuchBuilder) (os : List OuchSlot) : Except Fault OuchBuilder :=
  exec (fun b o => (b.build o).map Prod.fst) b os

/-- The message that is built next for an order. -/
def msg (b : OuchBuilder) (o : OuchSlot) : Except Fault (List UInt8) := (b.build o).map Prod.snd

end OuchBuilder

theorem clean_run {os : List OuchSlot} (h : Clean eci b) (hrun : b.run os = .ok b') :
    Clean eci b' := by
  have hstep : ∀ (s : OuchBuilder) o s', Clean eci s →
      (s.build o).map Prod.fst = .ok s' → Clean eci s' := by
    intro s o s' hs hmap
    obtain ⟨⟨t, msg⟩, hbuild, rfl⟩ := map_eq_ok_iff.mp hmap
    exact clean_build hs hbuild
  exact exec_inv hstep h hrun

theorem cleanReplace_run {os : List OuchSlot} (h : CleanReplace b)
    (hos : ∀ x ∈ os, x.own.realClOrdTokenLen.toNat ≤ 14) (hrun : b.run os = .ok b') :
    CleanReplace b' := by
  have hstep : ∀ (s : OuchBuilder) o s', CleanReplace s → o.own.realClOrdTokenLen.toNat ≤ 14 →
      (s.build o).map Prod.fst = .ok s' → CleanReplace s' := by
    intro s o s' hs hlen hmap
    obtain ⟨⟨t, msg⟩, hbuild, rfl⟩ := map_eq_ok_iff.mp hmap
    exact cleanReplace_build hs hlen hbuild
  exact exec_inv_along hstep h (along_of_forall hos b) hrun

/-! ### The next message -/

section Message

variable (b)

theorem msg_enter (h : o.order.messageType.toNat = 0) :
    b.msg o = buildEnterOrder b.eciLocal o >>= fun ps =>
      (storeMessage b.enterMessages 117 ps).map Prod.snd := by
  unfold OuchBuilder.msg OuchBuilder.build
  rw [h]
  cases buildEnterOrder b.eciLocal o with
  | error f => rfl
  | ok ps => exact map_snd_bind _ fun r => { b with enterMessages := r }

theorem msg_replace (h : o.order.messageType.toNat = 1) :
    b.msg o = buildReplaceOrder b.eciLocal o >>= fun ps =>
      (storeMessage b.replaceMessages 125 ps).map Prod.snd := by
  unfold OuchBuilder.msg OuchBuilder.build
  rw [h]
  cases buildReplaceOrder b.eciLocal o with
  | error f => rfl
  | ok ps => exact map_snd_bind _ fun r => { b with replaceMessages := r }

theorem msg_cancel (h : o.order.messageType.toNat = 2) :
    b.msg o = (storeMessage b.cancelMessages 18 (buildCancelOrder o)).map Prod.snd := by
  unfold OuchBuilder.msg OuchBuilder.build
  rw [h]
  exact map_snd_bind _ fun r => { b with cancelMessages := r }

theorem msg_cancelid (h : o.order.messageType.toNat = 3) :
    b.msg o = (storeMessage b.cancelidMessages 17 (buildCancelByOrderID o)).map Prod.snd := by
  unfold OuchBuilder.msg OuchBuilder.build
  rw [h]
  exact map_snd_bind _ fun r => { b with cancelidMessages := r }

theorem msg_other (h : 4 ≤ o.order.messageType.toNat) : b.msg o = .error .nullDereference := by
  unfold OuchBuilder.msg OuchBuilder.build
  split
  · omega
  · omega
  · omega
  · omega
  · rfl

end Message

/-- The token of an Enter or Replace fills its field. -/
def FillsToken (o : OuchSlot) : Prop :=
  o.order.messageType.toNat ≤ 1 → o.own.realClOrdTokenLen.toNat = 14

/-- **A request that fills its fields carries nothing of earlier orders.** -/
theorem msg_eq (hb : Clean eci b) (hb' : Clean eci b') (hfill : FillsToken o)
    (hreplace : o.order.messageType.toNat = 1 → CleanReplace b ∧ CleanReplace b') :
    b.msg o = b'.msg o := by
  have hkind : o.order.messageType.toNat = 0 ∨ o.order.messageType.toNat = 1 ∨
      o.order.messageType.toNat = 2 ∨ o.order.messageType.toNat = 3 ∨
      4 ≤ o.order.messageType.toNat := by omega
  -- every byte of the buffer is either written or a constant of the builder
  rcases hkind with h | h | h | h | h
  · have hlen := hfill (by omega)
    rw [msg_enter b h, msg_enter b' h, hb.eciLocal, hb'.eciLocal]
    cases hps : buildEnterOrder eci o with
    | error f => rfl
    | ok ps =>
      refine storeMessage_map_eq (Ring.message_eq enterBuffer fun i _ => ?_)
      have hcovered := (covered_enter hps i).2
      by_cases hconst : EnterConstant i
      · exact .inr ⟨hb.enter i hconst, hb'.enter i hconst⟩
      · left
        unfold EnterConstant at hconst
        rw [hcovered]
        omega
  · have hlen := hfill (by omega)
    obtain ⟨hclean, hclean'⟩ := hreplace h
    rw [msg_replace b h, msg_replace b' h, hb.eciLocal, hb'.eciLocal]
    cases hps : buildReplaceOrder eci o with
    | error f => rfl
    | ok ps =>
      refine storeMessage_map_eq (Ring.message_eq replaceBuffer fun i _ => ?_)
      have hcovered := (covered_replace hps i).2
      by_cases hconst : ReplaceConstant i
      · exact .inr ⟨hclean i hconst, hclean' i hconst⟩
      · left
        unfold ReplaceConstant at hconst
        rw [hcovered]
        omega
  · rw [msg_cancel b h, msg_cancel b' h]
    refine storeMessage_map_eq (Ring.message_eq cancelBuffer fun i _ => ?_)
    by_cases hconst : i = 3
    · rw [hconst]
      exact .inr ⟨hb.cancel, hb'.cancel⟩
    · left
      rw [covered_cancel]
      omega
  · rw [msg_cancelid b h, msg_cancelid b' h]
    refine storeMessage_map_eq (Ring.message_eq cancelidBuffer fun i _ => ?_)
    by_cases hconst : i = 3
    · rw [hconst]
      exact .inr ⟨hb.cancelid, hb'.cancelid⟩
    · left
      rw [covered_cancelid]
      omega
  · rw [msg_other b h, msg_other b' h]

/-! ### Short tokens -/

section Short

variable {e : ExchangeClientInfo}

theorem buildEnterOrder_eq (hlen : o.own.realClOrdTokenLen.toNat ≤ 32)
    (hacc : eci[o.own.accountIndex.toNat]? = some e) :
    buildEnterOrder eci o =
      .ok (enterFields (copyField o.own.clientOrderToken o.own.realClOrdTokenLen) e o) := by
  rw [buildEnterOrder, readArray, if_pos hlen, accountInfo, hacc]
  rfl

theorem buildReplaceOrder_eq (hlen : o.own.realClOrdTokenLen.toNat ≤ 32)
    (hacc : eci[o.own.accountIndex.toNat]? = some e) :
    buildReplaceOrder eci o =
      .ok (replaceFields (copyField o.own.clientOrderToken o.own.realClOrdTokenLen) e o) := by
  rw [buildReplaceOrder, readArray, if_pos hlen, accountInfo, hacc]
  rfl

theorem fits_enter {token : List UInt8} (e : ExchangeClientInfo) (o : OuchSlot)
    (hlen : token.length ≤ 32) :
    ∀ p ∈ sbtHeader 117 :: enterFields token e o, p.pos + p.cells.length ≤ 117 := by
  simp only [sbtHeader, enterFields, List.forall_mem_cons, List.not_mem_nil, false_implies,
    implies_true, and_true, List.length_append, List.length_singleton, length_writeU16be,
    length_writeU32be, length_writeU64be, length_writeI32be, Vector.length_toList]
  omega

theorem fits_replace {token : List UInt8} (e : ExchangeClientInfo) (o : OuchSlot)
    (hlen : token.length ≤ 32) :
    ∀ p ∈ sbtHeader 125 :: replaceFields token e o, p.pos + p.cells.length ≤ 125 := by
  simp only [sbtHeader, replaceFields, List.forall_mem_cons, List.not_mem_nil, false_implies,
    implies_true, and_true, List.length_append, List.length_singleton, length_writeU16be,
    length_writeU64be, length_writeI32be, length_copyField, Vector.length_toList,
    show (14 : UInt8).toNat = 14 from rfl]
  omega

/-- The token of an order, as it is copied. -/
def tokenOf (o : OuchSlot) : List UInt8 :=
  copyField o.own.clientOrderToken o.own.realClOrdTokenLen

theorem step_enter (h : o.order.messageType.toNat = 0)
    (hlen : o.own.realClOrdTokenLen.toNat ≤ 32)
    (hacc : b.eciLocal[o.own.accountIndex.toNat]? = some e) :
    (b.build o).map Prod.fst = .ok { b with
      enterMessages := b.enterMessages.write (sbtHeader 117 :: enterFields (tokenOf o) e o) } := by
  have htoken : (tokenOf o).length ≤ 32 := by
    rw [tokenOf, length_copyField]
    exact hlen
  unfold OuchBuilder.build
  rw [h]
  simp only [buildEnterOrder_eq hlen hacc]
  show ((storeMessage b.enterMessages 117 (enterFields (tokenOf o) e o)) >>= _).map Prod.fst = _
  rw [storeMessage_of_fits _ _ (fits_enter e o htoken)]
  rfl

theorem step_replace (h : o.order.messageType.toNat = 1)
    (hlen : o.own.realClOrdTokenLen.toNat ≤ 32)
    (hacc : b.eciLocal[o.own.accountIndex.toNat]? = some e) :
    (b.build o).map Prod.fst = .ok { b with
      replaceMessages :=
        b.replaceMessages.write (sbtHeader 125 :: replaceFields (tokenOf o) e o) } := by
  have htoken : (tokenOf o).length ≤ 32 := by
    rw [tokenOf, length_copyField]
    exact hlen
  unfold OuchBuilder.build
  rw [h]
  simp only [buildReplaceOrder_eq hlen hacc]
  show ((storeMessage b.replaceMessages 125 (replaceFields (tokenOf o) e o)) >>= _).map Prod.fst = _
  rw [storeMessage_of_fits _ _ (fits_replace e o htoken)]
  rfl

/-- Two Enters of the same order, and the buffer whose turn it is then. -/
theorem run_enter (h : o.order.messageType.toNat = 0)
    (hlen : o.own.realClOrdTokenLen.toNat ≤ 32)
    (hacc : b.eciLocal[o.own.accountIndex.toNat]? = some e) :
    ∃ b', b.run [o, o] = .ok b' ∧ b'.eciLocal = b.eciLocal ∧
      b'.enterMessages.buffers b'.enterMessages.slot =
        b.enterMessages.written (sbtHeader 117 :: enterFields (tokenOf o) e o) := by
  obtain ⟨ps, hps⟩ : ∃ ps, ps = sbtHeader 117 :: enterFields (tokenOf o) e o := ⟨_, rfl⟩
  refine ⟨{ b with enterMessages := (b.enterMessages.write ps).write ps }, ?_, rfl, ?_⟩
  · rw [OuchBuilder.run, exec_cons_ok _ (step_enter h hlen hacc), ← hps,
      exec_cons_ok _ (step_enter h hlen (by exact hacc)), ← hps]
    rfl
  · rw [← hps]
    exact Ring.buffers_slot_write_write _ _ _

theorem run_replace (h : o.order.messageType.toNat = 1)
    (hlen : o.own.realClOrdTokenLen.toNat ≤ 32)
    (hacc : b.eciLocal[o.own.accountIndex.toNat]? = some e) :
    ∃ b', b.run [o, o] = .ok b' ∧ b'.eciLocal = b.eciLocal ∧
      b'.replaceMessages.buffers b'.replaceMessages.slot =
        b.replaceMessages.written (sbtHeader 125 :: replaceFields (tokenOf o) e o) := by
  obtain ⟨ps, hps⟩ : ∃ ps, ps = sbtHeader 125 :: replaceFields (tokenOf o) e o := ⟨_, rfl⟩
  refine ⟨{ b with replaceMessages := (b.replaceMessages.write ps).write ps }, ?_, rfl, ?_⟩
  · rw [OuchBuilder.run, exec_cons_ok _ (step_replace h hlen hacc), ← hps,
      exec_cons_ok _ (step_replace h hlen (by exact hacc)), ← hps]
    rfl
  · rw [← hps]
    exact Ring.buffers_slot_write_write _ _ _

/-! #### The place behind a short token -/

theorem marked_enter {r : Ring 2 117 UInt8} {i : Fin 117} (h₁ : 4 ≤ i.val) (h₂ : i.val < 18) :
    r.written (sbtHeader 117 :: enterFields (tokenOf (marked 0 14)) e (marked 0 14)) i = 65 := by
  refine patches_of_last _ 1 rfl ⟨h₁, ?_⟩ ?_ fun c hc => eq_of_mem_marked (by decide) hc
  · exact h₂
  · simp only [List.drop_succ_cons, List.drop_zero, enterFields, covered_cons, covered_nil,
      or_false]
    omega

theorem marked_replace {r : Ring 2 125 UInt8} {i : Fin 125} {len : UInt8} (hlen : len.toNat ≤ 32)
    (h₁ : 18 ≤ i.val) (h₂ : i.val < 18 + len.toNat) (h₃ : i.val < 32 ∨ i.val = 44) :
    r.written (sbtHeader 125 :: replaceFields (tokenOf (marked 1 len)) e (marked 1 len)) i =
      65 := by
  refine patches_of_last _ 2 rfl ⟨h₁, ?_⟩ ?_ fun c hc => eq_of_mem_marked hlen hc
  · exact lt_of_lt_of_eq h₂ (congrArg (18 + ·) (length_copyField _ len).symm)
  · simp only [List.drop_succ_cons, List.drop_zero, replaceFields, covered_cons, covered_nil,
      or_false, length_writeU64be, length_writeI32be, Vector.length_toList, List.length_singleton]
    omega

/-- Behind a short token of an Enter stands what an earlier order had there. -/
theorem msg_enter_ne (htype : o.order.messageType.toNat = 0)
    (hlen : o.own.realClOrdTokenLen.toNat < 14)
    (hacc : eci[o.own.accountIndex.toNat]? = some e) (hfirst : ∃ e, eci[0]? = some e) :
    ∃ b', OuchBuilder.run { eciLocal := eci } [marked 0 14, marked 0 14] = .ok b' ∧
      OuchBuilder.msg { eciLocal := eci } o ≠ b'.msg o := by
  obtain ⟨e₀, he₀⟩ := hfirst
  obtain ⟨b', hrun, heci, hbuffer⟩ := run_enter (b := { eciLocal := eci }) (o := marked 0 14) rfl
    (by decide) he₀
  have heq := buildEnterOrder_eq (by omega) hacc
  obtain ⟨i, hi⟩ : ∃ i : Fin 117, i.val = 4 + o.own.realClOrdTokenLen.toNat :=
    ⟨⟨4 + o.own.realClOrdTokenLen.toNat, by omega⟩, rfl⟩
  refine ⟨b', hrun, ?_⟩
  rw [msg_enter _ htype, msg_enter _ htype, heci, heq]
  refine storeMessage_map_ne (i := i) (fits_enter e o (by rw [length_copyField]; omega)) i.isLt
    ?_ ?_
  · rw [(covered_enter heq i).2]
    omega
  · have hstart : enterBuffer i = 32 := by
      refine patches_of_not_covered _ ?_
      simp only [covered_cons, covered_nil, or_false, length_writeU64be, List.length_cons,
        List.length_nil]
      omega
    rw [hbuffer, marked_enter (by omega) (by omega)]
    show enterBuffer i ≠ 65
    rw [hstart]
    decide

/-- A place of a Replace that its token does not reach, but that of an earlier order. -/
theorem msg_replace_ne {i : Fin 125} (len : UInt8) (hmarked : len.toNat ≤ 32)
    (htype : o.order.messageType.toNat = 1) (hlen : o.own.realClOrdTokenLen.toNat ≤ 32)
    (hacc : eci[o.own.accountIndex.toNat]? = some e) (hfirst : ∃ e, eci[0]? = some e)
    (h₁ : 18 + o.own.realClOrdTokenLen.toNat ≤ i.val) (h₂ : i.val < 18 + len.toNat)
    (h₃ : i.val < 32 ∨ i.val = 44) (hstart : replaceBuffer i ≠ 65) :
    ∃ b', OuchBuilder.run { eciLocal := eci } [marked 1 len, marked 1 len] = .ok b' ∧
      OuchBuilder.msg { eciLocal := eci } o ≠ b'.msg o := by
  obtain ⟨e₀, he₀⟩ := hfirst
  obtain ⟨b', hrun, heci, hbuffer⟩ := run_replace (b := { eciLocal := eci }) (o := marked 1 len)
    rfl hmarked he₀
  have heq := buildReplaceOrder_eq hlen hacc
  refine ⟨b', hrun, ?_⟩
  rw [msg_replace _ htype, msg_replace _ htype, heci, heq]
  refine storeMessage_map_ne (i := i) (fits_replace e o (by rw [length_copyField]; exact hlen))
    i.isLt ?_ ?_
  · rw [(covered_replace heq i).2]
    omega
  · rw [hbuffer, marked_replace hmarked (by omega) h₂ h₃]
    exact hstart

theorem replaceBuffer_token {i : Fin 125} (h₁ : 18 ≤ i.val) (h₂ : i.val < 32) :
    replaceBuffer i ≠ 65 := by
  have hspace : replaceBuffer i = 32 := by
    refine patches_of_not_covered _ ?_
    simp only [covered_cons, covered_nil, or_false, length_writeU64be, List.length_cons,
      List.length_nil]
    omega
  rw [hspace]
  decide

end Short

/-- The message for the order is the same after all histories of orders with `H`. -/
def HistoryFree (H : OuchSlot → Prop) (eci : List ExchangeClientInfo) (o : OuchSlot) : Prop :=
  ∀ os os' b b', (∀ x ∈ os, H x) → (∀ x ∈ os', H x) →
    OuchBuilder.run { eciLocal := eci } os = .ok b →
    OuchBuilder.run { eciLocal := eci } os' = .ok b' → b.msg o = b'.msg o

theorem historyFree_iff (ho : o.Within)
    (hacc : o.own.accountIndex.toNat < eci.length) :
    HistoryFree OuchSlot.Within eci o ↔ FillsToken o := by
  have he := List.getElem?_eq_getElem hacc
  have hfirst : ∃ e, eci[0]? = some e := ⟨_, List.getElem?_eq_getElem (by omega)⟩
  constructor
  · -- a shorter token leaves the end of an earlier one, which a marked order shows
    intro hfree hkind
    by_contra hne
    have hlen : o.own.realClOrdTokenLen.toNat < 14 := lt_of_le_of_ne ho.1 hne
    rcases Nat.le_one_iff_eq_zero_or_eq_one.mp hkind with h | h
    · obtain ⟨b', hrun, hdiffer⟩ := msg_enter_ne h hlen he hfirst
      exact hdiffer (hfree [] _ _ b' (List.forall_mem_nil _) (within_marked 0) rfl hrun)
    · obtain ⟨b', hrun, hdiffer⟩ := msg_replace_ne 14
        (i := ⟨18 + o.own.realClOrdTokenLen.toNat, by omega⟩) (by decide) h (by omega) he hfirst
        le_rfl (Nat.add_lt_add_left hlen 18) (.inl (by dsimp only; omega))
        (replaceBuffer_token (Nat.le_add_right 18 _) (by dsimp only; omega))
      exact hdiffer (hfree [] _ _ b' (List.forall_mem_nil _) (within_marked 1) rfl hrun)
  · intro hfill os os' b b' hos hos' hrun hrun'
    refine msg_eq (clean_run (clean_start eci) hrun) (clean_run (clean_start eci) hrun') hfill
      fun _ => ⟨?_, ?_⟩
    · exact cleanReplace_run (cleanReplace_start eci) (fun x hx => (hos x hx).1) hrun
    · exact cleanReplace_run (cleanReplace_start eci) (fun x hx => (hos' x hx).1) hrun'

/-- With tokens of any length in the histories a Replace is never safe: a long one reaches the
byte behind the price, which nothing ever restores. -/
theorem historyFree_any_iff (ho : o.Within)
    (hacc : o.own.accountIndex.toNat < eci.length) :
    HistoryFree (fun _ => True) eci o ↔ FillsToken o ∧ o.order.messageType.toNat ≠ 1 := by
  have he := List.getElem?_eq_getElem hacc
  have hfirst : ∃ e, eci[0]? = some e := ⟨_, List.getElem?_eq_getElem (by omega)⟩
  constructor
  · intro hfree
    refine ⟨(historyFree_iff ho hacc).mp fun os os' b b' _ _ =>
      hfree os os' b b' (fun _ _ => trivial) (fun _ _ => trivial), fun h => ?_⟩
    have hlen := ho.1
    obtain ⟨b', hrun, hdiffer⟩ := msg_replace_ne 32 (i := 44) (by decide) h (by omega) he
      hfirst (by show _ ≤ 44; omega) (by decide) (.inr rfl) (by decide)
    exact hdiffer (hfree [] _ _ b' (fun _ _ => trivial) (fun _ _ => trivial) rfl hrun)
  · rintro ⟨hfill, hne⟩ os os' b b' - - hrun hrun'
    exact msg_eq (clean_run (clean_start eci) hrun) (clean_run (clean_start eci) hrun') hfill
      fun h => absurd h hne

end Bist

/-! ### NASDAQ -/

namespace Nasdaq

variable {o : OuchSlot} {b b' : OuchBuilder} {refNums refNums' : BuilderOuchNasdaq}
  {len : UInt16} {ps : List (Patch UInt8)} {own : OwnFields}

/-- What a request is, by the type of the message. -/
theorem request_cases (h : request refNums o = .ok (len, ps, refNums', own)) :
    (o.order.messageType.toNat = 0 ∧ o.own.realSymbolLen.toNat ≤ 32 ∧
      o.own.realClOrdTokenLen.toNat ≤ 32 ∧ len = 50 ∧
      ps = (refNums.buildEnterOrder o.order o.own).1.patches) ∨
    (o.order.messageType.toNat = 1 ∧ o.own.realClOrdTokenLen.toNat ≤ 32 ∧ len = 43 ∧
      ps = (refNums.buildReplaceOrder o.order o.own).1.patches) ∨
    (o.order.messageType.toNat = 2 ∧ len = 14 ∧
      ps = (refNums.buildCancelOrder o.order).patches) ∨
    (o.order.messageType.toNat = 3 ∧ len = 15 ∧
      ps = (refNums.buildModifyOrder o.order).patches) ∨
    (o.order.messageType.toNat = 4 ∧ len = 6 ∧ ps = buildAccountQueryRequest) := by
  unfold request at h
  split at h
  · rename_i htype
    obtain ⟨symbol, hsymbol, h⟩ := bind_eq_ok_iff.mp h
    obtain ⟨token, htoken, h⟩ := bind_eq_ok_iff.mp h
    obtain ⟨hlen, h⟩ := Prod.mk.inj (Except.ok.inj h)
    exact .inl ⟨htype, (readArray_ok hsymbol).1, (readArray_ok htoken).1, hlen.symm,
      (Prod.mk.inj h).1.symm⟩
  · rename_i htype
    obtain ⟨token, htoken, h⟩ := bind_eq_ok_iff.mp h
    obtain ⟨hlen, h⟩ := Prod.mk.inj (Except.ok.inj h)
    exact .inr (.inl ⟨htype, (readArray_ok htoken).1, hlen.symm, (Prod.mk.inj h).1.symm⟩)
  · rename_i htype
    obtain ⟨hlen, h⟩ := Prod.mk.inj (Except.ok.inj h)
    exact .inr (.inr (.inl ⟨htype, hlen.symm, (Prod.mk.inj h).1.symm⟩))
  · rename_i htype
    obtain ⟨hlen, h⟩ := Prod.mk.inj (Except.ok.inj h)
    exact .inr (.inr (.inr (.inl ⟨htype, hlen.symm, (Prod.mk.inj h).1.symm⟩)))
  · rename_i htype
    obtain ⟨hlen, h⟩ := Prod.mk.inj (Except.ok.inj h)
    exact .inr (.inr (.inr (.inr ⟨htype, hlen.symm, (Prod.mk.inj h).1.symm⟩)))
  · cases h

/-- The symbol and the token of an Enter and the token of a Replace fill their fields. -/
def FillsFields (o : OuchSlot) : Prop :=
  (o.order.messageType.toNat = 0 → o.own.realSymbolLen.toNat = 8) ∧
    (o.order.messageType.toNat ≤ 1 → o.own.realClOrdTokenLen.toNat = 14)

theorem covered_enter (refNums : BuilderOuchNasdaq) (o : OuchSlot) (i : ℕ) :
    CoveredBy (sbtHeader 50 :: (refNums.buildEnterOrder o.order o.own).1.patches) i ↔
      i < 13 + o.own.realSymbolLen.toNat ∨
        (21 ≤ i ∧ i < 34 + o.own.realClOrdTokenLen.toNat) ∨ (48 ≤ i ∧ i < 50) := by
  simp only [sbtHeader, EnterRequest.patches, BuilderOuchNasdaq.buildEnterOrder, covered_cons,
    covered_nil, length_copyField, length_writeU16be, length_writeU32be, length_writeU64be,
    List.length_append, List.length_cons, List.length_nil, or_false]
  omega

theorem covered_replace (refNums : BuilderOuchNasdaq) (o : OuchSlot) (i : ℕ) :
    CoveredBy (sbtHeader 43 :: (refNums.buildReplaceOrder o.order o.own).1.patches) i ↔
      i < 27 + o.own.realClOrdTokenLen.toNat ∨ (41 ≤ i ∧ i < 43) := by
  simp only [sbtHeader, ReplaceRequest.patches, BuilderOuchNasdaq.buildReplaceOrder, covered_cons,
    covered_nil, length_copyField, length_writeU16be, length_writeU32be, length_writeU64be,
    List.length_append, List.length_cons, List.length_nil, or_false]
  omega

/-- A request that fills its fields writes every byte that is sent. -/
theorem covered_of_fills (h : request refNums o = .ok (len, ps, refNums', own))
    (hfill : FillsFields o) {i : ℕ} (hi : i < len.toNat) : CoveredBy (sbtHeader len :: ps) i := by
  obtain ⟨htype, -, -, rfl, rfl⟩ | ⟨htype, -, rfl, rfl⟩ | ⟨-, rfl, rfl⟩ | ⟨-, rfl, rfl⟩ |
    ⟨-, rfl, rfl⟩ := request_cases h
  · have hsymbol := hfill.1 htype
    have htoken := hfill.2 (by omega)
    have hlen : i < 50 := hi
    rw [covered_enter]
    omega
  · have htoken := hfill.2 (by omega)
    have hlen : i < 43 := hi
    rw [covered_replace]
    omega
  · have hlen : i < 14 := hi
    simp only [sbtHeader, CancelRequest.patches, covered_cons, covered_nil, length_writeU16be,
      length_writeU32be, List.length_append, List.length_singleton, or_false]
    omega
  · have hlen : i < 15 := hi
    simp only [sbtHeader, ModifyRequest.patches, covered_cons, covered_nil, length_writeU16be,
      length_writeU32be, List.length_append, List.length_singleton, or_false]
    omega
  · have hlen : i < 6 := hi
    simp only [sbtHeader, buildAccountQueryRequest, covered_cons, covered_nil, length_writeU16be,
      List.length_append, List.length_singleton, or_false]
    omega

namespace OuchBuilder

/-- The builder after some builds. -/
def run (b : OuchBuilder) (os : List OuchSlot) : Except Fault OuchBuilder :=
  exec (fun b o => (b.build o).map Prod.fst) b os

/-- The message that is built next for an order. -/
def msg (b : OuchBuilder) (o : OuchSlot) : Except Fault (List UInt8) :=
  (b.build o).map fun r => r.2.2

/-- The buffers as they are, with the counter at `u`. -/
def withCounter (b : OuchBuilder) (u : UInt32) : OuchBuilder := { b with refNums := ⟨u⟩ }

end OuchBuilder

theorem msg_eq_bind (b : OuchBuilder) (o : OuchSlot) :
    b.msg o = request b.refNums o >>= fun r =>
      (storeMessage b.messages r.1 r.2.1).map Prod.snd := by
  unfold OuchBuilder.msg OuchBuilder.build
  cases request b.refNums o with
  | error f => rfl
  | ok r =>
    show ((storeMessage b.messages r.1 r.2.1) >>= _).map _ =
      (storeMessage b.messages r.1 r.2.1).map _
    cases storeMessage b.messages r.1 r.2.1 with
    | error f => rfl
    | ok p => rfl

/-- **A request that fills its fields carries nothing of earlier orders**, whatever is in
the buffers. -/
theorem msg_eq (hfill : FillsFields o) (u : UInt32) :
    (b.withCounter u).msg o = (b'.withCounter u).msg o := by
  rw [msg_eq_bind, msg_eq_bind]
  show (request ⟨u⟩ o >>= _) = (request ⟨u⟩ o >>= _)
  cases hreq : request ⟨u⟩ o with
  | error f => rfl
  | ok r =>
    obtain ⟨len, ps, refNums', own⟩ := r
    refine storeMessage_map_eq (Ring.message_eq (fun _ => 32) fun i hi => ?_)
    exact .inl (covered_of_fills hreq hfill hi)

/-! ### Short symbols and tokens -/

theorem fits_enter (refNums : BuilderOuchNasdaq) (hsymbol : o.own.realSymbolLen.toNat ≤ 32)
    (htoken : o.own.realClOrdTokenLen.toNat ≤ 32) :
    ∀ p ∈ sbtHeader 50 :: (refNums.buildEnterOrder o.order o.own).1.patches,
      p.pos + p.cells.length ≤ 126 := by
  simp only [sbtHeader, EnterRequest.patches, BuilderOuchNasdaq.buildEnterOrder,
    List.forall_mem_cons, List.not_mem_nil, false_implies, implies_true, and_true,
    length_copyField, length_writeU16be, length_writeU32be, length_writeU64be,
    List.length_append, List.length_cons, List.length_nil]
  omega

theorem fits_replace (refNums : BuilderOuchNasdaq) (htoken : o.own.realClOrdTokenLen.toNat ≤ 32) :
    ∀ p ∈ sbtHeader 43 :: (refNums.buildReplaceOrder o.order o.own).1.patches,
      p.pos + p.cells.length ≤ 126 := by
  simp only [sbtHeader, ReplaceRequest.patches, BuilderOuchNasdaq.buildReplaceOrder,
    List.forall_mem_cons, List.not_mem_nil, false_implies, implies_true, and_true,
    length_copyField, length_writeU16be, length_writeU32be, length_writeU64be,
    List.length_append, List.length_cons, List.length_nil]
  omega

theorem request_enter (refNums : BuilderOuchNasdaq) (htype : o.order.messageType.toNat = 0)
    (hsymbol : o.own.realSymbolLen.toNat ≤ 32) (htoken : o.own.realClOrdTokenLen.toNat ≤ 32) :
    request refNums o = .ok (50, (refNums.buildEnterOrder o.order o.own).1.patches, refNums.next,
      (refNums.buildEnterOrder o.order o.own).2.2) := by
  unfold request
  rw [htype]
  simp only [readArray]
  rw [if_pos hsymbol, if_pos htoken]
  rfl

theorem request_replace (refNums : BuilderOuchNasdaq) (htype : o.order.messageType.toNat = 1)
    (htoken : o.own.realClOrdTokenLen.toNat ≤ 32) :
    request refNums o = .ok (43, (refNums.buildReplaceOrder o.order o.own).1.patches, refNums.next,
      (refNums.buildReplaceOrder o.order o.own).2.2) := by
  unfold request
  rw [htype]
  simp only [readArray]
  rw [if_pos htoken]
  rfl

/-- One request leaves the buffers as its patches do. -/
theorem step_of_request (h : request b.refNums o = .ok (len, ps, refNums', own))
    (hfits : ∀ p ∈ sbtHeader len :: ps, p.pos + p.cells.length ≤ 126) :
    (b.build o).map Prod.fst = .ok ⟨refNums', b.messages.write (sbtHeader len :: ps)⟩ := by
  unfold OuchBuilder.build
  rw [h]
  show ((storeMessage b.messages len ps) >>= _).map Prod.fst = _
  rw [storeMessage_of_fits _ _ hfits]
  rfl

/-- Two requests of one kind, and the buffer whose turn it is then. -/
theorem run_two (ps : BuilderOuchNasdaq → List (Patch UInt8))
    (hstep : ∀ b : OuchBuilder,
      (b.build o).map Prod.fst = .ok ⟨b.refNums.next, b.messages.write (ps b.refNums)⟩)
    (b : OuchBuilder) :
    ∃ b', b.run [o, o] = .ok b' ∧
      b'.messages.buffers b'.messages.slot = b.messages.written (ps b.refNums) := by
  refine ⟨⟨b.refNums.next.next,
    (b.messages.write (ps b.refNums)).write (ps b.refNums.next)⟩, ?_,
    Ring.buffers_slot_write_write _ _ _⟩
  rw [OuchBuilder.run, exec_cons_ok _ (hstep b), exec_cons_ok _ (hstep _)]
  rfl

theorem run_marked_enter (b : OuchBuilder) :
    ∃ b', b.run [marked 0 14, marked 0 14] = .ok b' ∧
      b'.messages.buffers b'.messages.slot = b.messages.written
        (sbtHeader 50 ::
          (b.refNums.buildEnterOrder (marked 0 14).order (marked 0 14).own).1.patches) := by
  have hlen : (marked 0 14).own.realSymbolLen.toNat ≤ 32 ∧
      (marked 0 14).own.realClOrdTokenLen.toNat ≤ 32 := by decide
  have hstep := fun b : OuchBuilder => step_of_request
    (request_enter (o := marked 0 14) b.refNums rfl hlen.1 hlen.2)
    (fits_enter b.refNums hlen.1 hlen.2)
  exact run_two (fun refNums => sbtHeader 50 ::
    (refNums.buildEnterOrder (marked 0 14).order (marked 0 14).own).1.patches) hstep b

theorem run_marked_replace (b : OuchBuilder) :
    ∃ b', b.run [marked 1 14, marked 1 14] = .ok b' ∧
      b'.messages.buffers b'.messages.slot = b.messages.written
        (sbtHeader 43 ::
          (b.refNums.buildReplaceOrder (marked 1 14).order (marked 1 14).own).1.patches) := by
  have hlen : (marked 1 14).own.realClOrdTokenLen.toNat ≤ 32 := by decide
  have hstep := fun b : OuchBuilder => step_of_request
    (request_replace (o := marked 1 14) b.refNums rfl hlen) (fits_replace b.refNums hlen)
  exact run_two (fun refNums => sbtHeader 43 ::
    (refNums.buildReplaceOrder (marked 1 14).order (marked 1 14).own).1.patches) hstep b

theorem marked_symbol {r : Ring 2 126 UInt8} (refNums : BuilderOuchNasdaq) {i : Fin 126}
    (h₁ : 13 ≤ i.val) (h₂ : i.val < 21) :
    r.written (sbtHeader 50 ::
      (refNums.buildEnterOrder (marked 0 14).order (marked 0 14).own).1.patches) i = 65 := by
  refine patches_of_last _ 5 rfl ⟨h₁, ?_⟩ ?_ fun c hc => eq_of_mem_marked (by decide) hc
  · exact h₂
  · simp only [List.drop_succ_cons, List.drop_zero, EnterRequest.patches,
      BuilderOuchNasdaq.buildEnterOrder, covered_cons, covered_nil, or_false]
    omega

theorem marked_token {r : Ring 2 126 UInt8} (refNums : BuilderOuchNasdaq) {i : Fin 126}
    (h₁ : 34 ≤ i.val) (h₂ : i.val < 48) :
    r.written (sbtHeader 50 ::
      (refNums.buildEnterOrder (marked 0 14).order (marked 0 14).own).1.patches) i = 65 := by
  refine patches_of_last _ 9 rfl ⟨h₁, ?_⟩ ?_ fun c hc => eq_of_mem_marked (by decide) hc
  · exact h₂
  · simp only [List.drop_succ_cons, List.drop_zero, EnterRequest.patches,
      BuilderOuchNasdaq.buildEnterOrder, covered_cons, covered_nil, or_false]
    omega

theorem marked_replace {r : Ring 2 126 UInt8} (refNums : BuilderOuchNasdaq) {i : Fin 126}
    (h₁ : 27 ≤ i.val) (h₂ : i.val < 41) :
    r.written (sbtHeader 43 ::
      (refNums.buildReplaceOrder (marked 1 14).order (marked 1 14).own).1.patches) i = 65 := by
  refine patches_of_last _ 8 rfl ⟨h₁, ?_⟩ ?_ fun c hc => eq_of_mem_marked (by decide) hc
  · exact h₂
  · simp only [List.drop_succ_cons, List.drop_zero, ReplaceRequest.patches,
      BuilderOuchNasdaq.buildReplaceOrder, covered_cons, covered_nil, or_false]
    omega

/-- The message for the order is the same, with the same counter, after all histories of
orders with `H`. -/
def HistoryFree (H : OuchSlot → Prop) (o : OuchSlot) : Prop :=
  ∀ os os' (b b' : OuchBuilder) u, (∀ x ∈ os, H x) → (∀ x ∈ os', H x) →
    OuchBuilder.run {} os = .ok b → OuchBuilder.run {} os' = .ok b' →
    (b.withCounter u).msg o = (b'.withCounter u).msg o

/-- A place of an Enter that shows the buffer. -/
theorem msg_enter_ne (b b' : OuchBuilder) (i : Fin 126) (htype : o.order.messageType.toNat = 0)
    (hsymbol : o.own.realSymbolLen.toNat ≤ 32) (htoken : o.own.realClOrdTokenLen.toNat ≤ 32)
    (hi : i.val < 50) (hcovered : ¬(i.val < 13 + o.own.realSymbolLen.toNat ∨
      (21 ≤ i.val ∧ i.val < 34 + o.own.realClOrdTokenLen.toNat) ∨ (48 ≤ i.val ∧ i.val < 50)))
    (hne : b.messages.buffers b.messages.slot i ≠ b'.messages.buffers b'.messages.slot i)
    (u : UInt32) : (b.withCounter u).msg o ≠ (b'.withCounter u).msg o := by
  rw [msg_eq_bind, msg_eq_bind]
  show (request ⟨u⟩ o >>= _) ≠ (request ⟨u⟩ o >>= _)
  rw [request_enter ⟨u⟩ htype hsymbol htoken]
  refine storeMessage_map_ne (i := i) (fits_enter ⟨u⟩ hsymbol htoken) hi ?_ hne
  rw [covered_enter]
  exact hcovered

/-- A place of a Replace that shows the buffer. -/
theorem msg_replace_ne (b b' : OuchBuilder) (i : Fin 126) (htype : o.order.messageType.toNat = 1)
    (htoken : o.own.realClOrdTokenLen.toNat ≤ 32) (hi : i.val < 41)
    (hcovered : 27 + o.own.realClOrdTokenLen.toNat ≤ i.val)
    (hne : b.messages.buffers b.messages.slot i ≠ b'.messages.buffers b'.messages.slot i)
    (u : UInt32) : (b.withCounter u).msg o ≠ (b'.withCounter u).msg o := by
  rw [msg_eq_bind, msg_eq_bind]
  show (request ⟨u⟩ o >>= _) ≠ (request ⟨u⟩ o >>= _)
  rw [request_replace ⟨u⟩ htype htoken]
  have hlt : i.val < 43 := by omega
  refine storeMessage_map_ne (i := i) (fits_replace ⟨u⟩ htoken) hlt ?_ hne
  rw [covered_replace]
  omega

/-- The histories may be of any orders, as long as those full of `A` are among them. -/
theorem historyFree_iff {H : OuchSlot → Prop}
    (hmarked : ∀ type, ∀ x ∈ [marked type 14, marked type 14], H x) (ho : o.Within) :
    HistoryFree H o ↔ FillsFields o := by
  obtain ⟨htoken, hsymbol⟩ := ho
  have hspace : ∀ {i : Fin 126} {c : UInt8}, c = 65 →
      ({} : OuchBuilder).messages.buffers ({} : OuchBuilder).messages.slot i ≠ c := by
    rintro i c rfl
    show (32 : UInt8) ≠ 65
    decide
  constructor
  · intro hfree
    obtain ⟨b₀, hrun₀, hbuffer₀⟩ := run_marked_enter {}
    obtain ⟨b₁, hrun₁, hbuffer₁⟩ := run_marked_replace {}
    refine ⟨fun h => ?_, fun hkind => ?_⟩
    · by_contra hne
      obtain ⟨i, hi⟩ : ∃ i : Fin 126, i.val = 13 + o.own.realSymbolLen.toNat :=
        ⟨⟨13 + o.own.realSymbolLen.toNat, by omega⟩, rfl⟩
      refine msg_enter_ne {} b₀ i h (by omega) (by omega) (by omega)
        (by omega) ?_ 1 (hfree [] _ _ b₀ 1 (List.forall_mem_nil _) (hmarked 0) rfl hrun₀)
      rw [hbuffer₀]
      exact hspace (marked_symbol _ (by omega) (by omega))
    · by_contra hne
      rcases Nat.le_one_iff_eq_zero_or_eq_one.mp hkind with h | h
      · obtain ⟨i, hi⟩ : ∃ i : Fin 126, i.val = 34 + o.own.realClOrdTokenLen.toNat :=
          ⟨⟨34 + o.own.realClOrdTokenLen.toNat, by omega⟩, rfl⟩
        refine msg_enter_ne {} b₀ i h (by omega) (by omega) (by omega)
          (by omega) ?_ 1 (hfree [] _ _ b₀ 1 (List.forall_mem_nil _) (hmarked 0) rfl hrun₀)
        rw [hbuffer₀]
        exact hspace (marked_token _ (by omega) (by omega))
      · obtain ⟨i, hi⟩ : ∃ i : Fin 126, i.val = 27 + o.own.realClOrdTokenLen.toNat :=
          ⟨⟨27 + o.own.realClOrdTokenLen.toNat, by omega⟩, rfl⟩
        refine msg_replace_ne {} b₁ i h (by omega) (by omega) hi.ge ?_ 1
          (hfree [] _ _ b₁ 1 (List.forall_mem_nil _) (hmarked 1) rfl hrun₁)
        rw [hbuffer₁]
        exact hspace (marked_replace _ (by omega) (by omega))
  · intro hfill os os' b b' u _ _ _ _
    exact msg_eq hfill u

end Nasdaq

/-- **OUCH requests and earlier orders.**  For an order whose token and symbol fit their
fields, the bytes of its message are the same after all histories of such orders exactly when
they fill the fields that are copied: at BIST the token of an Enter or Replace, at NASDAQ also
the symbol of an Enter.  With tokens of any length in the histories it is the same, but for
the Replace of BIST, which then never is free of them. -/
theorem ouch_requests_historyFree_iff (eci : List Bist.ExchangeClientInfo) (o : OuchSlot)
    (ho : o.Within) (hacc : o.own.accountIndex.toNat < eci.length) :
    ((Bist.HistoryFree OuchSlot.Within eci o ↔ Bist.FillsToken o) ∧
      (Bist.HistoryFree (fun _ => True) eci o ↔
        Bist.FillsToken o ∧ o.order.messageType.toNat ≠ 1)) ∧
    ((Nasdaq.HistoryFree OuchSlot.Within o ↔ Nasdaq.FillsFields o) ∧
      (Nasdaq.HistoryFree (fun _ => True) o ↔ Nasdaq.FillsFields o)) :=
  ⟨⟨Bist.historyFree_iff ho hacc, Bist.historyFree_any_iff ho hacc⟩,
    Nasdaq.historyFree_iff within_marked ho,
    Nasdaq.historyFree_iff (fun _ _ _ => trivial) ho⟩

/-- An Enter with a full token and symbol, for the one account of a session. -/
theorem ouch_requests_historyFree_full :
    Bist.HistoryFree OuchSlot.Within [.ofStrings [] []] (marked 0 14) ∧
      Nasdaq.HistoryFree (fun _ => True) (marked 0 14) := by
  have h := ouch_requests_historyFree_iff [.ofStrings [] []] (marked 0 14)
    (within_marked 0 _ List.mem_cons_self) (by decide)
  exact ⟨h.1.1.mpr fun _ => rfl, h.2.2.mpr ⟨fun _ => rfl, fun _ => rfl⟩⟩

/-- Enters with a token of five characters, and a Replace to NASDAQ: behind the token stand
nine characters of an earlier order, and not the spaces that stand there at first. -/
theorem ouch_requests_carry_earlier :
    (marked 0 5).Within ∧ (marked 1 5).Within ∧
      ¬Bist.HistoryFree OuchSlot.Within [.ofStrings [] []] (marked 0 5) ∧
      ¬Nasdaq.HistoryFree OuchSlot.Within (marked 0 5) ∧
      ¬Nasdaq.HistoryFree OuchSlot.Within (marked 1 5) := by
  have hwithin : ∀ type, (marked type 5).Within := fun _ =>
    ⟨show (5 : UInt8).toNat ≤ 14 by decide, le_rfl⟩
  refine ⟨hwithin 0, hwithin 1, ?_, ?_, ?_⟩
  · rw [Bist.historyFree_iff (hwithin 0) (by decide)]
    intro h
    exact absurd (h (by decide)) (by decide)
  · rw [Nasdaq.historyFree_iff within_marked (hwithin 0)]
    intro h
    exact absurd (h.2 (by decide)) (by decide)
  · rw [Nasdaq.historyFree_iff within_marked (hwithin 1)]
    intro h
    exact absurd (h.2 (by decide)) (by decide)

end TradingEngine
