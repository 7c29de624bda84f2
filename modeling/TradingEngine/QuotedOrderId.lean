/-
The OrderID that cancel and replace requests quote.

The exchange names an order by a text, field 37 of its reports.  The parser copies it
into the message, the filler hashes it into `order_id`, and the builder prints
`order_id` through the overload for `uint32_t`: the request carries the low 32 bits of
the hash in decimal, and the text itself, which `fill_fix_new` keeps in
`fix_org_order_id`, is not read.

* `orderId_applyFields` — the parser delivers the text;
* `orderId_of_applied`, `orderId_laterTurns` — the order holds the hash of the last text
  that a New or a Replaced report brought;
* `requests_quote_orderId_iff` — a request quotes the text exactly when the text is the
  numeral of its own hash.
-/
import TradingEngine.FixOrderText
import TradingEngine.StoreDisposition

namespace TradingEngine

open DecimalText FallibleRun

/-! ### The text in the report -/

/-- The values of the fields with a tag, in order. -/
def fieldValues (fs : List FixField) (tag : ℕ) : List (List UInt8) :=
  (fs.filter fun f => f.tag = tag).map (·.value)

theorem fieldValues_cons (f : FixField) (fs : List FixField) (tag : ℕ) :
    fieldValues (f :: fs) tag =
      if f.tag = tag then f.value :: fieldValues fs tag else fieldValues fs tag := by
  rw [fieldValues, List.filter_cons]
  by_cases htag : f.tag = tag
  · rw [if_pos htag, if_pos (decide_eq_true htag)]
    rfl
  · rw [if_neg htag, if_neg (by simpa using htag)]
    rfl

theorem fieldValues_append (fs gs : List FixField) (tag : ℕ) :
    fieldValues (fs ++ gs) tag = fieldValues fs tag ++ fieldValues gs tag := by
  rw [fieldValues, List.filter_append, List.map_append]
  rfl

/-- A report whose OrderID is the text `t`, as the exchange writes it. -/
structure ReportText (fs : List FixField) (t : List UInt8) : Prop where
  wf : ∀ f ∈ fs, f.Wf
  orderId : fieldValues fs 37 = [t]
  size : 1 ≤ t.length ∧ t.length ≤ 31

/-- A handler that leaves the OrderID alone. -/
def KeepsOrderId (handler : TagHandler FIXMessage) : Prop :=
  ∀ value msg msg', handler value msg = .ok msg' → msg'.orderId = msg.orderId

theorem keepsOrderId_setField {set : List UInt8 → FIXMessage → FIXMessage}
    (hset : ∀ value msg, (set value msg).orderId = msg.orderId) : KeepsOrderId (setField set) := by
  intro value msg msg' h
  rw [← Except.ok.inj h, hset]

theorem keepsOrderId_setChar {set : UInt8 → FIXMessage → FIXMessage}
    (hset : ∀ c msg, (set c msg).orderId = msg.orderId) : KeepsOrderId (setChar set) := by
  intro value msg msg' h
  unfold setChar at h
  cases hc : parseChar value with
  | error e =>
    rw [hc] at h
    cases h
  | ok c =>
    rw [hc] at h
    rw [← Except.ok.inj h, hset]

theorem keepsOrderId_of_mem : ∀ e ∈ tagHandlerEntries, e.1 ≠ 37 → KeepsOrderId e.2 := by
  simp only [tagHandlerEntries, List.forall_mem_cons, List.not_mem_nil, false_implies,
    implies_true, and_true]
  and_intros
  all_goals first
    | exact fun h => absurd rfl h
    | exact fun _ => keepsOrderId_setField fun _ _ => rfl
    | exact fun _ => keepsOrderId_setChar fun _ _ => rfl

theorem orderId_applyHandler {tag : ℕ} {value : List UInt8} {msg msg' : FIXMessage}
    (htag : tag ≠ 37) (h : applyHandler tagHandlers tag value msg = .ok msg') :
    msg'.orderId = msg.orderId := by
  rw [applyHandler, tagHandlers, tagHandlersWith] at h
  by_cases hmax : tag < maxTag
  · rw [if_pos hmax, ok_bind] at h
    cases hfound : tagHandlerEntries.lookup tag with
    | none =>
      rw [hfound] at h
      rw [← Except.ok.inj h]
    | some handler =>
      rw [hfound] at h
      obtain ⟨before, after, hsplit, -⟩ := List.lookup_eq_some_iff.mp hfound
      exact keepsOrderId_of_mem (tag, handler) (by rw [hsplit]; simp) htag value msg msg' h
  · rw [if_neg hmax] at h
    cases h

theorem orderId_applyFields_of_nil {fs : List FixField} {msg msg' : FIXMessage}
    (hnone : fieldValues fs 37 = []) (h : applyFields tagHandlers fs msg = .ok msg') :
    msg'.orderId = msg.orderId := by
  induction fs generalizing msg with
  | nil => rw [← Except.ok.inj h]
  | cons f fs ih =>
    rw [fieldValues_cons] at hnone
    have htag : f.tag ≠ 37 := by
      intro htag
      rw [if_pos htag] at hnone
      cases hnone
    rw [if_neg htag] at hnone
    obtain ⟨msg₁, hfirst, hrest⟩ := bind_eq_ok_iff.mp h
    rw [ih hnone hrest, orderId_applyHandler htag hfirst]

/-- The parser copies the text into the message, over what the slot held before. -/
theorem orderId_applyFields {fs : List FixField} {t : List UInt8} {msg msg' : FIXMessage}
    (hid : fieldValues fs 37 = [t]) (h : applyFields tagHandlers fs msg = .ok msg') :
    msg'.orderId = copyText msg.orderId t := by
  induction fs generalizing msg with
  | nil => cases hid
  | cons f fs ih =>
    rw [fieldValues_cons] at hid
    obtain ⟨msg₁, hfirst, hrest⟩ := bind_eq_ok_iff.mp h
    by_cases htag : f.tag = 37
    · rw [if_pos htag] at hid
      injection hid with hvalue hnone
      rw [htag, hvalue] at hfirst
      rw [orderId_applyFields_of_nil hnone hrest, ← Except.ok.inj hfirst]
    · rw [if_neg htag] at hid
      rw [ih hid hrest, orderId_applyHandler htag hfirst]

theorem cString_copyText (field : List UInt8) {t : List UInt8} (hsize : t.length ≤ 31) :
    cString (copyText field t) = cString t := by
  have htake : t.take (fixIdSize - 1) = t := List.take_of_length_le hsize
  rw [copyText]
  simp only [htake, cString]
  rw [List.takeWhile_append]
  split
  · rename_i hall
    rw [List.takeWhile_cons, if_neg (by decide), List.append_nil]
    exact ((List.takeWhile_prefix _).eq_of_length hall).symm
  · rfl

/-- What the filler reads of the OrderID of a report. -/
theorem cString_orderId {fs : List FixField} {t : List UInt8} {stale msg : FIXMessage}
    (hreport : ReportText fs t)
    (hparse : parse tagHandlers (fieldsText fs) (fieldsText fs).length stale = .ok msg) :
    cString msg.orderId = cString t := by
  rw [parse_fieldsText stale hreport.wf] at hparse
  rw [orderId_applyFields hreport.orderId hparse, cString_copyText _ hreport.size.2]

/-! ### The order in the store -/

/-- A report that renames its order: `fill_fix_new` and `fill_fix_replaced` write
`order_id`. -/
def FIXMessage.SetsOrderId (msg : FIXMessage) : Prop :=
  msg.msgType = 56 ∧ (msg.ordStatus = 48 ∨ msg.ordStatus = 53)

instance (msg : FIXMessage) : Decidable msg.SetsOrderId := by
  unfold FIXMessage.SetsOrderId
  infer_instance

section Store

variable {hash : List UInt8 → UInt64} {om om' : OwnManager} {slot : OrderSlot} {msg : FIXMessage}

theorem orderId_fillFixExecReport (hreport : msg.msgType = 56) (order : Order) (own : OwnFields) :
    (FillerFix.fillFixExecReport hash order own msg).1.orderId =
      if msg.SetsOrderId then hash (cString msg.orderId) else order.orderId := by
  have hsets : msg.SetsOrderId ↔ msg.ordStatus = 48 ∨ msg.ordStatus = 53 :=
    ⟨fun h => h.2, fun h => ⟨hreport, h⟩⟩
  rw [FillerFix.fillFixExecReport]
  by_cases hnew : msg.ordStatus = 48
  · rw [if_pos hnew, if_pos (hsets.mpr (.inl hnew))]
    rfl
  by_cases hreplaced : msg.ordStatus = 53
  · rw [if_pos (hsets.mpr (.inr hreplaced)), hreplaced]
    rfl
  rw [if_neg hnew, if_neg hreplaced, if_neg (fun h => (hsets.mp h).elim hnew hreplaced)]
  split
  · rfl
  split
  · rfl
  split
  · rfl
  split
  · rfl
  rfl

theorem orderId_handleFix {clientOrderId : UInt64}
    (hadmitted : ¬(msg.msgType = 56 ∧ ¬OwnManager.allowedExecType msg.execType))
    (h : OwnManager.handleFix hash om slot clientOrderId msg = .ok om') :
    (om'.orderPool slot).orderId =
      if msg.SetsOrderId then hash (cString msg.orderId) else (om.orderPool slot).orderId := by
  obtain ⟨hreport, -, filled, hfilled, rfl⟩ | ⟨hreport, hexec, -⟩ | ⟨hcancel, rfl⟩ |
    ⟨hreport, -, rfl⟩ := OwnManager.handleFix_cases h
  · have hpool : ((om.setOwn slot filled.1 filled.2).finishFix slot clientOrderId msg).orderPool
        slot = filled.1 := Function.update_self _ _ _
    rw [hpool, hfilled, orderId_fillFixExecReport hreport]
  · exact absurd ⟨hreport, hexec⟩ hadmitted
  · have hsets : ¬msg.SetsOrderId := fun hsets => absurd (hcancel.symm.trans hsets.1) (by decide)
    have hpool : (om.setOrder slot (FillerFix.fillFixCancelReject (om.orderPool slot)
        msg)).orderPool slot = FillerFix.fillFixCancelReject (om.orderPool slot) msg :=
      Function.update_self _ _ _
    rw [if_neg hsets]
    exact (congrArg Order.orderId hpool).trans rfl
  · rw [if_neg fun hsets : msg.SetsOrderId => hreport hsets.1]
    rfl

/-- A message that is applied to the order in `slot` leaves the hash of its OrderID there
if it renames the order, and the old number otherwise. -/
theorem orderId_of_applied (happlied : OwnManager.dispositionFix hash om msg = .applied slot)
    (h : OwnManager.updateOrderFix hash om msg = .ok om') :
    (om'.orderPool slot).orderId =
      if msg.SetsOrderId then hash (cString msg.orderId) else (om.orderPool slot).orderId := by
  -- an order that is there already, whether known or just entered
  have hexisting : ∀ {om₁ om₂ : OwnManager} {s : OrderSlot} {clientOrderId : UInt64},
      om₁.orderPool = om.orderPool → om.existingFix s msg = .applied slot →
      om₁.unlessDeferred s (.fix msg) (fun om => OwnManager.handleFix hash om s clientOrderId msg)
        = .ok om₂ →
      (om₂.orderPool slot).orderId =
        if msg.SetsOrderId then hash (cString msg.orderId) else (om.orderPool slot).orderId := by
    intro om₁ om₂ s clientOrderId hpool hdisp hhandled
    rw [OwnManager.existingFix] at hdisp
    obtain ⟨hlocked, -⟩ | ⟨hopen, hhandled⟩ := OwnManager.unlessDeferred_cases hhandled
    · rw [hpool] at hlocked
      rw [if_pos hlocked] at hdisp
      cases hdisp
    · rw [hpool] at hopen
      rw [if_neg hopen] at hdisp
      split at hdisp
      · cases hdisp
      · rename_i hadmitted
        cases hdisp
        rw [← hpool]
        exact orderId_handleFix hadmitted hhandled
  obtain ⟨id, hid, hcase⟩ := OwnManager.updateOrderFix_cases h
  rw [OwnManager.dispositionFix, hid] at happlied
  obtain ⟨s, hk, hhandled⟩ | ⟨hk, hawait, -⟩ | ⟨s, hk, hawait, hreject, -⟩ |
    ⟨s, om₁, hk, hawait, hreject, hadd, hhandled⟩ := hcase
  · simp only [hk] at happlied
    exact hexisting rfl happlied hhandled
  · simp only [hk, hawait] at happlied
    cases happlied
  · simp only [hk, hawait, if_pos hreject] at happlied
    cases happlied
  · simp only [hk, hawait, if_neg hreject] at happlied
    exact hexisting (OwnManager.still_addOurOrder hadd).orderPool happlied hhandled

/-- What happens to the store after the acknowledgement: messages that are applied to the
order in `slot`, which are listed, and turns of any kind that leave its `order_id`. -/
inductive LaterTurns (hash : List UInt8 → UInt64) (slot : OrderSlot) :
    OwnManager → List FIXMessage → OwnManager → Prop
  | done (om : OwnManager) : LaterTurns hash slot om [] om
  | applied {om om₁ om' : OwnManager} {msg : FIXMessage} {msgs : List FIXMessage}
      (happlied : OwnManager.dispositionFix hash om msg = .applied slot)
      (hupdate : OwnManager.updateOrderFix hash om msg = .ok om₁)
      (hrest : LaterTurns hash slot om₁ msgs om') : LaterTurns hash slot om (msg :: msgs) om'
  | other {om om₁ om' : OwnManager} {msgs : List FIXMessage}
      (hkept : (om₁.orderPool slot).orderId = (om.orderPool slot).orderId)
      (hrest : LaterTurns hash slot om₁ msgs om') : LaterTurns hash slot om msgs om'

/-- The OrderID of the last report that renamed the order. -/
def lastOrderId (t : List UInt8) (msgs : List FIXMessage) : List UInt8 :=
  msgs.foldl (fun u msg => if msg.SetsOrderId then cString msg.orderId else u) t

/-- The order holds the hash of the last OrderID. -/
theorem orderId_laterTurns {t : List UInt8} {msgs : List FIXMessage}
    (h : LaterTurns hash slot om msgs om') (hid : (om.orderPool slot).orderId = hash t) :
    (om'.orderPool slot).orderId = hash (lastOrderId t msgs) := by
  induction h generalizing t with
  | done om => exact hid
  | applied happlied hupdate _ ih =>
    rw [lastOrderId, List.foldl_cons]
    refine ih ?_
    rw [orderId_of_applied happlied hupdate, hid]
    split
    · rfl
    · rfl
  | other hkept _ ih => exact ih (hkept.trans hid)

end Store

/-! ### The requests -/

/-- The buffer consists of the fields of the request, and one of them is an OrderID, `t`. -/
structure QuotesOrderId (b : BuilderFIX) (r : FIXRequest) (now : ℕ) (buffer : BufferFIX)
    (t : List UInt8) : Prop where
  bytes : buffer.data = fieldsText (b.messageFields r now)
  orderId : fieldValues (b.messageFields r now) 37 = [t]

/-- A request that names an order of the exchange. -/
def FIXRequest.Names (r : FIXRequest) (order : Order) (own : OwnFields) : Prop :=
  r = .orderCancelRequest order own ∨ r = .orderCancelReplaceRequest order own

theorem fieldValues_termsFields (order : Order) (own : OwnFields) :
    fieldValues (termsFields order own) 37 = [] := by
  rw [termsFields]
  split
  · rfl
  · rfl

/-- The OrderID of a request is the numeral of the low half of `order_id`. -/
theorem fieldValues_messageFields (b : BuilderFIX) {r : FIXRequest} {order : Order}
    {own : OwnFields} (hr : r.Names order own) (now : ℕ) :
    fieldValues (b.messageFields r now) 37 = [decimal order.orderId.toUInt32.toNat] := by
  have hheader : fieldValues ([beginString, ⟨9, decimal (b.printedLen r now)⟩] ++
      b.routingFields r.type now) 37 = [] := rfl
  have htrailer : fieldValues [(⟨10, threeDigits (checkSum (announce (b.printedLen r now)
      (b.countedText r now)))⟩ : FixField)] 37 = [] := rfl
  have hbody : fieldValues (b.bodyFields r) 37 = [decimal order.orderId.toUInt32.toNat] := by
    rcases hr with rfl | rfl
    · rfl
    · rw [BuilderFIX.bodyFields, fieldValues_append, fieldValues_termsFields, List.append_nil]
      rfl
  rw [BuilderFIX.messageFields, fieldValues_append, fieldValues_append, hheader, hbody, htrailer]
  rfl

/-- The text `t` is the numeral of a number below `2^32` that the hash of `u` has in its
low half. -/
def NumeralOfHash (hash : List UInt8 → UInt64) (u t : List UInt8) : Prop :=
  ∃ n < 2 ^ 32, t = decimal n ∧ (hash u).toNat % 2 ^ 32 = n

theorem numeralOfHash_iff {hash : List UInt8 → UInt64} {u t : List UInt8} :
    NumeralOfHash hash u t ↔ decimal (hash u).toUInt32.toNat = t := by
  rw [UInt64.toNat_toUInt32]
  constructor
  · rintro ⟨n, -, rfl, hn⟩
    rw [hn]
  · intro h
    exact ⟨_, Nat.mod_lt _ (by decide), h.symm, rfl⟩

theorem cString_decimal (n : ℕ) : cString (decimal n) = decimal n :=
  cString_of_notMem (notMem_decimal (.inl (by decide)) n)

/-- Reading the text up to a NUL makes no difference to the condition. -/
theorem numeralOfHash_lastOrderId {hash : List UInt8 → UInt64} {t : List UInt8}
    (msgs : List FIXMessage) :
    NumeralOfHash hash (lastOrderId (cString t) msgs) t ↔
      NumeralOfHash hash (lastOrderId t msgs) t := by
  have hsame : ∀ u, NumeralOfHash hash u t → cString t = t := by
    rintro u ⟨n, -, rfl, -⟩
    exact cString_decimal n
  constructor
  · intro h
    rwa [hsame _ h] at h
  · intro h
    rwa [hsame _ h]

/-- **The quoted OrderID.**  An own order is acknowledged by a report with the OrderID `t`,
and later reports `msgs` about it follow.  A cancel or replace request built for it then
carries `37=t` exactly when `t` is the numeral of the low half of the hash of the last
OrderID that a report brought, of `t` itself when no later one did. -/
theorem requests_quote_orderId_iff {hash : List UInt8 → UInt64} {fs : List FixField}
    {t : List UInt8} {stale ack : FIXMessage} {om om₁ om₂ : OwnManager} {slot : OrderSlot}
    {msgs : List FIXMessage} {b b' : BuilderFIX} {r : FIXRequest} {now : ℕ} {buffer : BufferFIX}
    (hreport : ReportText fs t)
    (hparse : parse tagHandlers (fieldsText fs) (fieldsText fs).length stale = .ok ack)
    (hnew : ack.msgType = 56 ∧ ack.ordStatus = 48)
    (happlied : OwnManager.dispositionFix hash om ack = .applied slot)
    (hupdate : OwnManager.updateOrderFix hash om ack = .ok om₁)
    (hlater : LaterTurns hash slot om₁ msgs om₂)
    (hr : r.Names (om₂.orderPool slot) (om₂.ownFields slot))
    (hbuild : b.build r now = .ok (buffer, b')) :
    QuotesOrderId b r now buffer t ↔ NumeralOfHash hash (lastOrderId t msgs) t := by
  have hack : (om₁.orderPool slot).orderId = hash (cString t) := by
    rw [orderId_of_applied happlied hupdate, if_pos ⟨hnew.1, .inl hnew.2⟩,
      cString_orderId hreport hparse]
  have hid := orderId_laterTurns hlater hack
  obtain ⟨-, -, -, -, rfl, -⟩ := (b.build_ok_iff).mp hbuild
  have hvalue := fieldValues_messageFields b hr now
  rw [hid] at hvalue
  rw [← numeralOfHash_lastOrderId, numeralOfHash_iff]
  constructor
  · intro hquotes
    have hone := hvalue.symm.trans hquotes.orderId
    exact (List.cons.inj hone).1
  · intro heq
    exact ⟨b.data_builtBuffer r now, by rw [hvalue, heq]⟩

/-! ### Two acknowledgements -/

/-- The New report of an order for 5 GARAN with the OrderID `t`. -/
def newReport (t : List UInt8) : List FixField :=
  [⟨35, ascii ['8']⟩, ⟨37, t⟩, ⟨11, ascii ['T', '1']⟩, ⟨150, ascii ['0']⟩, ⟨39, ascii ['0']⟩,
    ⟨55, ascii ['G', 'A', 'R', 'A', 'N']⟩, ⟨54, ascii ['1']⟩, ⟨38, ascii ['5']⟩]

/-- What the parser makes of it. -/
def newMessage (t : List UInt8) : FIXMessage :=
  (applyFields tagHandlers (newReport t) {}).toOption.getD {}

/-- A store in which one order waits for its acknowledgement, when every text has the
hash 7. -/
def awaitingStore : OwnManager :=
  { orderPool := fun _ => { buyOrder with canModify := 7, protocol := .fix, isOurOrder := true }
    ownFields := fun _ => buyFields
    sympackSymid := (∅ : HashMap (List UInt8) UInt32).insert
      (symbolPack (ascii ['G', 'A', 'R', 'A', 'N'])) 5
    ourOrdersAllVenue := fun _ => [{}]
    awaitingAckOrders := (∅ : HashMap UInt64 OrderSlot).insert 7 40000 }

def acknowledgedStore (t : List UInt8) : OwnManager :=
  (OwnManager.updateOrderFix (fun _ => 7) awaitingStore (newMessage t)).toOption.getD {}

/-- The cancel request for the order. -/
def cancelRequest (t : List UInt8) : FIXRequest :=
  .orderCancelRequest ((acknowledgedStore t).orderPool 40000)
    ((acknowledgedStore t).ownFields 40000)

theorem reportText_newReport {t : List UInt8} (hsoh : soh ∉ t)
    (hsize : 1 ≤ t.length ∧ t.length ≤ 31) : ReportText (newReport t) t := by
  refine ⟨fun f hf => ?_, rfl, hsize⟩
  simp only [newReport, List.mem_cons, List.not_mem_nil, or_false] at hf
  rcases hf with rfl | rfl | rfl | rfl | rfl | rfl | rfl | rfl
  case inr.inl => exact FixField.wf_mk (by decide) hsoh
  all_goals exact FixField.wf_mk (by decide) (by decide)

theorem parse_newReport {t : List UInt8} (hreport : ReportText (newReport t) t) :
    parse tagHandlers (fieldsText (newReport t)) (fieldsText (newReport t)).length {} =
      .ok (newMessage t) :=
  (parse_fieldsText ({} : FIXMessage) hreport.wf).trans rfl

theorem updateOrderFix_newMessage (t : List UInt8) :
    OwnManager.updateOrderFix (fun _ => 7) awaitingStore (newMessage t) =
      .ok (acknowledgedStore t) := rfl

theorem build_cancelRequest (t : List UInt8) :
    buySession.build (cancelRequest t) 0 = .ok (buySession.builtBuffer (cancelRequest t) 0,
      buySession.afterBuild (cancelRequest t) 0) := by
  have hid : ((acknowledgedStore t).orderPool 40000).orderId = 7 := by rfl
  have hquantity : ((acknowledgedStore t).orderPool 40000).quantity = 5 := by rfl
  have hsymbol : ((acknowledgedStore t).ownFields 40000).realSymbolLen = 5 := by rfl
  have htoken : ((acknowledgedStore t).ownFields 40000).realClOrdTokenLen = 2 := by rfl
  have hprint : (cancelRequest t).Printable :=
    ⟨show (5 : ℕ) ≤ 32 by decide, show (2 : ℕ) ≤ 32 by decide⟩
  have hsize : buySession.bodySize (cancelRequest t) = 63 := by
    simp only [cancelRequest, BuilderFIX.bodySize, hid, hquantity, hsymbol, htoken]
    rfl
  have hdata := buySession.length_builtBuffer_le hprint 0 (by rw [hsize]; decide)
  exact (buySession.build_ok_iff).mpr ⟨by decide, hprint, by rw [hsize]; decide, hdata, rfl, rfl⟩

/-- The text `7` is the numeral of its hash. -/
theorem requests_quote_orderId_iff_numeral :
    QuotesOrderId buySession (cancelRequest [0x37]) 0
      (buySession.builtBuffer (cancelRequest [0x37]) 0) [0x37] := by
  have hreport : ReportText (newReport [0x37]) [0x37] :=
    reportText_newReport (by decide) (by decide)
  exact (requests_quote_orderId_iff hreport (parse_newReport hreport) ⟨rfl, rfl⟩ rfl
    (updateOrderFix_newMessage _) (.done _) (.inl rfl) (build_cancelRequest _)).mpr
    ⟨7, by decide, rfl, rfl⟩

/-- The order is acknowledged as `A1` and the cancel request for it carries `37=7`. -/
theorem cancel_quotes_hash :
    ReportText (newReport (ascii ['A', '1'])) (ascii ['A', '1']) ∧
    parse tagHandlers (fieldsText (newReport (ascii ['A', '1'])))
      (fieldsText (newReport (ascii ['A', '1']))).length {} = .ok (newMessage (ascii ['A', '1'])) ∧
    OwnManager.dispositionFix (fun _ => 7) awaitingStore (newMessage (ascii ['A', '1'])) =
      .applied 40000 ∧
    OwnManager.updateOrderFix (fun _ => 7) awaitingStore (newMessage (ascii ['A', '1'])) =
      .ok (acknowledgedStore (ascii ['A', '1'])) ∧
    ∃ buffer b', buySession.build (cancelRequest (ascii ['A', '1'])) 0 = .ok (buffer, b') ∧
      QuotesOrderId buySession (cancelRequest (ascii ['A', '1'])) 0 buffer [0x37] ∧
      ¬QuotesOrderId buySession (cancelRequest (ascii ['A', '1'])) 0 buffer (ascii ['A', '1']) := by
  have hreport : ReportText (newReport (ascii ['A', '1'])) (ascii ['A', '1']) :=
    reportText_newReport (by decide) (by decide)
  have hvalue : fieldValues (buySession.messageFields (cancelRequest (ascii ['A', '1'])) 0) 37 =
      [[0x37]] := fieldValues_messageFields buySession (.inl rfl) 0
  refine ⟨hreport, parse_newReport hreport, rfl, updateOrderFix_newMessage _, _, _,
    build_cancelRequest _, ⟨buySession.data_builtBuffer _ 0, hvalue⟩, fun hquotes => ?_⟩
  have hone := hvalue.symm.trans hquotes.orderId
  exact absurd hone (by decide)

end TradingEngine
