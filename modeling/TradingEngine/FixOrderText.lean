/-
A NewOrderSingle written by `Builder_FIX` and read back by `Parser_FIX`.

The builder prints the side as the number of its enumerator (0 and 1); the order
manager reads the FIX codes (1 and 2).  Whatever the parser returns for a built
order, it carries the order's quantity, price and order type
(`parse_newOrderSingle`), and the side is always another one
(`newOrderSingle_side_lost`).

The parser calls the entry 528 of a table of 512, so all statements hold for
whatever stands behind the table.  The fields up to the symbol are not needed:
the account and the identities of the session may contain any bytes.
-/
import TradingEngine.FixFramed
import TradingEngine.FixParse

namespace TradingEngine

open DecimalText

/-! ### The round trip -/

/-- A limit order whose texts fill the lengths that go with them. -/
structure LimitOrderText (order : Order) (own : OwnFields) : Prop where
  side : order.side = .buy ∨ order.side = .sell
  limit : order.orderType = .limit
  price : 1000 ≤ order.price.toInt ∧ order.price.toInt < 2 ^ 32
  symbol : order.symbol.length = own.realSymbolLen.toNat ∧ soh ∉ order.symbol
  token : own.clientOrderToken.length = own.realClOrdTokenLen.toNat ∧
    1 ≤ own.realClOrdTokenLen ∧ own.realClOrdTokenLen ≤ 31 ∧ soh ∉ own.clientOrderToken

/-- The order manager and the FIX filler read the order out of the message. -/
structure Recovered (hash : List UInt8 → UInt64) (order : Order) (own : OwnFields)
    (msg : FIXMessage) : Prop where
  side : (FillerFix.fillFixNew hash {} {} msg).1.side = order.side
  keySide : (OwnManager.fixKey hash 0 msg).side = order.side.code
  quantity : (FillerFix.fillFixNew hash {} {} msg).1.quantity = order.quantity
  price : (FillerFix.fillFixNew hash {} {} msg).1.price = order.price
  orderType : (FillerFix.fillFixNew hash {} {} msg).1.orderType = order.orderType
  symbol : cString msg.symbol = order.symbol
  token : cString msg.clOrdId = own.clientOrderToken

/-- The message of the order is built, parsed into `slot` and recovered. -/
def RoundTrips (hash : List UInt8 → UInt64) (beyond : HandlerLookup FIXMessage) (b : BuilderFIX)
    (order : Order) (own : OwnFields) (now : ℕ) (slot : FIXMessage) : Prop :=
  ∃ buffer b' msg, b.build (.newOrderSingle order own) now = .ok (buffer, b') ∧
    parse (tagHandlersWith beyond) buffer.data buffer.len.toNat slot = .ok msg ∧
    Recovered hash order own msg

/-! ### The fields of the message -/

namespace BuilderFIX

variable (b : BuilderFIX)

/-- The fields of a built message, with header and trailer. -/
def messageFields (r : FIXRequest) (now : ℕ) : List FixField :=
  [beginString, ⟨9, decimal (b.printedLen r now)⟩] ++ b.routingFields r.type now ++
  b.bodyFields r ++
  [⟨10, threeDigits (checkSum (announce (b.printedLen r now) (b.countedText r now)))⟩]

theorem data_builtBuffer (r : FIXRequest) (now : ℕ) :
    (b.builtBuffer r now).data = fieldsText (b.messageFields r now) := by
  show announce _ _ ++ trailer _ = _
  rw [messageFields, fieldsText_append, fieldsText_append, fieldsText_append,
    fieldsText_singleton, List.append_assoc (fieldsText _) (fieldsText _) (fieldsText _)]
  rfl

end BuilderFIX

theorem soh_notMem_charArray {size : ℕ} {text : List UInt8} (h : soh ∉ text) :
    soh ∉ charArray size text := by
  intro hmem
  have hmem' := List.mem_of_mem_take hmem
  rw [List.mem_append] at hmem'
  rcases hmem' with htext | hzero
  · exact h htext
  · exact absurd (List.eq_of_mem_replicate hzero) (by decide)

theorem soh_ne_digitChar {d : ℕ} (h : d < 10) : soh ≠ digitChar d := by
  intro heq
  have hnat := congrArg UInt8.toNat heq
  rw [toNat_digitChar h] at hnat
  have hsoh : soh.toNat = 1 := rfl
  omega

theorem soh_notMem_timestamp (day : CalendarDay) (ns : ℕ) : soh ∉ day.timestamp ns := by
  have hmonth := day.month_le
  have hmday := day.mday_le
  have hsep : soh ∉ ascii ['-'] ∧ soh ∉ ascii [':'] ∧ soh ∉ ascii ['.'] := by decide
  simp only [CalendarDay.timestamp, CalendarDay.secondRow, digitPair, List.mem_append,
    List.mem_cons, List.not_mem_nil, or_false, hsep, not_or]
  and_intros <;> exact soh_ne_digitChar (by omega)

/-! ### Behind the symbol -/

section Order

variable {b : BuilderFIX} {order : Order} {own : OwnFields}

/-- The fields of a new order up to the account, without the symbol. -/
def leadingFields (b : BuilderFIX) (order : Order) (own : OwnFields) (now : ℕ) : List FixField :=
  [beginString, ⟨9, decimal (b.printedLen (.newOrderSingle order own) now)⟩] ++
  b.routingFields .newOrderSingle now ++ ([⟨11, tokenText own 13⟩] ++ b.accountFields)

/-- The fields of a limit order behind the symbol. -/
def closingFields (b : BuilderFIX) (order : Order) (own : OwnFields) (now : ℕ) : List FixField :=
  [⟨54, decimal order.side.code.toNat⟩, ⟨60, b.day.epochToTransactTime order.timestamp⟩,
    ⟨38, decimal order.quantity.toNat⟩, ⟨40, decimal order.orderType.code.toNat⟩,
    ⟨44, priceText 4 order.printedPrice.toNat⟩, ⟨59, timeInForceText own.timeInForce⟩,
    ⟨10, threeDigits (checkSum (announce (b.printedLen (.newOrderSingle order own) now)
      (b.countedText (.newOrderSingle order own) now)))⟩]

theorem messageFields_newOrderSingle (hlimit : order.orderType = .limit) (now : ℕ) :
    b.messageFields (.newOrderSingle order own) now =
      leadingFields b order own now ++
        (⟨55, symbolText order own⟩ :: closingFields b order own now) := by
  rw [BuilderFIX.messageFields, BuilderFIX.bodyFields, BuilderFIX.orderFields, termsFields,
    if_pos hlimit, leadingFields, closingFields]
  simp only [List.append_assoc, List.cons_append, List.nil_append]
  rfl

theorem soh_notMem_threeDigits {n : ℕ} (h : n < 256) : soh ∉ threeDigits n := by
  simp only [threeDigits, List.mem_cons, List.not_mem_nil, or_false, not_or]
  and_intros <;> exact soh_ne_digitChar (by omega)

theorem soh_notMem_priceText (scale num : ℕ) : soh ∉ priceText scale num := by
  have hpoint : soh ∉ ascii ['.'] := by decide
  simp only [priceText, List.mem_append, not_or]
  exact ⟨⟨fun h => soh_notMem_decimal num (List.mem_of_mem_take h), hpoint⟩,
    fun h => soh_notMem_decimal num (List.mem_of_mem_drop h)⟩

theorem soh_notMem_timeInForceText {code : UInt8} (h : code ∈ timeInForceCodes) :
    soh ∉ timeInForceText code := by
  simp only [timeInForceCodes, List.mem_cons, List.not_mem_nil, or_false] at h
  rcases h with rfl | rfl | rfl | rfl | rfl | rfl | rfl <;> decide

theorem wf_closingFields (htif : own.timeInForce ∈ timeInForceCodes) (now : ℕ) :
    ∀ f ∈ closingFields b order own now, f.Wf := by
  have hsum : ∀ text, checkSum text < 256 := fun text => Nat.mod_lt _ (by omega)
  intro f hf
  simp only [closingFields, List.mem_cons, List.not_mem_nil, or_false] at hf
  rcases hf with rfl | rfl | rfl | rfl | rfl | rfl | rfl
  · exact FixField.wf_mk (by decide) (soh_notMem_decimal _)
  · exact FixField.wf_mk (by decide) (soh_notMem_timestamp _ _)
  · exact FixField.wf_mk (by decide) (soh_notMem_decimal _)
  · exact FixField.wf_mk (by decide) (soh_notMem_decimal _)
  · exact FixField.wf_mk (by decide) (soh_notMem_priceText _ _)
  · exact FixField.wf_mk (by decide) (soh_notMem_timeInForceText htif)
  · exact FixField.wf_mk (by decide) (soh_notMem_threeDigits (hsum _))

/-- What the handlers make of these fields, in a message left by the others. -/
theorem applyFields_closing (b : BuilderFIX) (own : OwnFields) (beyond : HandlerLookup FIXMessage)
    (hlimit : order.orderType = .limit) (now : ℕ) (msg : FIXMessage) :
    ∃ tif, applyFields (tagHandlersWith beyond) (closingFields b order own now) msg = .ok
      { msg with
        side := (parseNum (decimal order.side.code.toNat)).toUInt8
        transactTime := (parseNum (b.day.epochToTransactTime order.timestamp)).toUInt32
        quantity := (parseNum (decimal order.quantity.toNat)).toUInt32
        ordType := 0x32
        price := (parsePrice 4 (priceText 4 order.printedPrice.toNat)).toInt64
        timeInForce := tif } := by
  have hchar : ∃ c, timeInForceText own.timeInForce = [c] :=
    List.length_eq_one_iff.mp (length_timeInForceText _)
  obtain ⟨c, hc⟩ := hchar
  refine ⟨c, ?_⟩
  rw [closingFields, hc, hlimit]
  rfl

/-- A parsed message carries what stands behind the symbol, whatever precedes it. -/
theorem parse_builtBuffer {beyond : HandlerLookup FIXMessage} {now : ℕ} {slot msg : FIXMessage}
    (hlimit : order.orderType = .limit) (htif : own.timeInForce ∈ timeInForceCodes)
    (hsymbol : soh ∉ symbolText order own)
    (hdata : (b.builtBuffer (.newOrderSingle order own) now).data.length ≤ maxMsgSize)
    (h : parse (tagHandlersWith beyond) (b.builtBuffer (.newOrderSingle order own) now).data
      (b.builtBuffer (.newOrderSingle order own) now).len.toNat slot = .ok msg) :
    ∃ msg', applyFields (tagHandlersWith beyond) (closingFields b order own now) msg' = .ok msg := by
  rw [b.len_builtBuffer hdata, b.data_builtBuffer, messageFields_newOrderSingle hlimit,
    fieldsText_append, fieldsText_cons, parse] at h
  set pre := fieldsText (leadingFields b order own now) with hpre
  set f : FixField := ⟨55, symbolText order own⟩ with hf
  set mem := pre ++ (f.text ++ fieldsText (closingFields b order own now)) with hmem
  have hsuffix : [soh] <:+ pre :=
    BuilderFIX.soh_suffix_fieldsText (List.append_ne_nil_of_left_ne_nil (List.cons_ne_nil _ _) _)
  obtain ⟨fuel, msg', -, hloop⟩ :=
    parseLoop_skip hsuffix hsymbol hmem (Nat.zero_le _) h
  refine ⟨msg', ?_⟩
  have hmem' : mem = (pre ++ f.text) ++ fieldsText (closingFields b order own now) := by
    rw [hmem, List.append_assoc]
  have hstart : (pre ++ f.text).length = pre.length + f.text.length := List.length_append
  rw [← hstart] at hloop
  have hrounds := parseLoop_mono (Nat.le_add_right fuel 8) hloop
  rw [parseLoop_fields msg' (wf_closingFields htif now) hmem'
    (lt_of_lt_of_le (by decide : 7 < 8) (Nat.le_add_left 8 fuel))] at hrounds
  exact hrounds

theorem toUInt8_parseNum_decimal (n : UInt8) : (parseNum (decimal n.toNat)).toUInt8 = n := by
  have hlt := n.toNat_lt
  refine UInt8.toNat_inj.mp ?_
  rw [UInt64.toNat_toUInt8, toNat_parseNum_decimal (by omega)]
  exact Nat.mod_eq_of_lt hlt

theorem toUInt32_parseNum_decimal (n : UInt32) : (parseNum (decimal n.toNat)).toUInt32 = n := by
  have hlt := n.toNat_lt
  refine UInt32.toNat_inj.mp ?_
  rw [UInt64.toNat_toUInt32, toNat_parseNum_decimal (by omega)]
  exact Nat.mod_eq_of_lt hlt

theorem toNat_price (h : LimitOrderText order own) :
    order.price.toUInt64.toNat = order.price.toInt.toNat := by
  have hpos : 0 ≤ order.price := by
    rw [Int64.le_iff_toInt_le]
    exact le_trans (by decide) h.price.1
  exact Int64.toNat_toUInt64_of_le hpos

theorem toNat_printedPrice (h : LimitOrderText order own) :
    order.printedPrice.toNat = order.price.toUInt64.toNat := by
  obtain ⟨hlow, hhigh⟩ := h.price
  rw [Order.printedPrice, UInt64.toNat_toUInt32, toNat_price h]
  omega

theorem price_recovered (h : LimitOrderText order own) :
    (parsePrice 4 (priceText 4 order.printedPrice.toNat)).toInt64 = order.price := by
  obtain ⟨hlow, hhigh⟩ := h.price
  have hlt := order.printedPrice.toNat_lt
  have hdigits : 4 ≤ (decimal order.printedPrice.toNat).length := by
    rw [BuilderFIX.four_le_length_iff, toNat_printedPrice h, toNat_price h]
    omega
  have hprice : parsePrice 4 (priceText 4 order.printedPrice.toNat) = order.price.toUInt64 := by
    refine UInt64.toNat_inj.mp ?_
    rw [toNat_parsePrice_priceText hdigits (by omega), toNat_printedPrice h]
  rw [hprice, Int64.toInt64_toUInt64]

/-- Whatever is parsed from a built limit order has its quantity, price and order
type, and the number of its side. -/
theorem parse_newOrderSingle {beyond : HandlerLookup FIXMessage} {now : ℕ} {buffer : BufferFIX}
    {b' : BuilderFIX} {slot msg : FIXMessage} (h : LimitOrderText order own)
    (hbuild : b.build (.newOrderSingle order own) now = .ok (buffer, b'))
    (hparse : parse (tagHandlersWith beyond) buffer.data buffer.len.toNat slot = .ok msg) :
    msg.side = order.side.code ∧ msg.quantity = order.quantity ∧ msg.price = order.price ∧
    msg.ordType = 0x32 := by
  obtain ⟨-, ⟨-, hterms⟩, -, hdata, rfl, -⟩ := (b.build_ok_iff).mp hbuild
  have hsymbol : soh ∉ symbolText order own := fun hmem =>
    soh_notMem_charArray h.symbol.2 (List.mem_of_mem_take hmem)
  obtain ⟨msg', hclosing⟩ := parse_builtBuffer h.limit hterms.2 hsymbol hdata hparse
  obtain ⟨tif, hmsg⟩ := applyFields_closing b own beyond h.limit now msg'
  rw [hmsg] at hclosing
  cases hclosing
  exact ⟨toUInt8_parseNum_decimal _, toUInt32_parseNum_decimal _, price_recovered h, rfl⟩

/-- The texts of the session and of the order contain no SOH. -/
structure CleanTexts (b : BuilderFIX) (order : Order) (own : OwnFields) : Prop where
  myId : soh ∉ b.auth.myId
  venueId : soh ∉ b.auth.venueId
  account : soh ∉ b.auth.account
  symbol : soh ∉ order.symbol
  token : soh ∉ own.clientOrderToken

theorem wf_leadingFields (h : CleanTexts b order own) (now : ℕ) :
    ∀ f ∈ leadingFields b order own now, f.Wf := by
  have htoken : soh ∉ tokenText own 13 := fun hmem =>
    soh_notMem_charArray h.token (List.mem_of_mem_take hmem)
  intro f hf
  simp only [leadingFields, BuilderFIX.routingFields, BuilderFIX.accountFields, List.cons_append,
    List.nil_append, List.mem_cons, List.not_mem_nil, or_false] at hf
  rcases hf with rfl | rfl | rfl | rfl | rfl | rfl | rfl | rfl | rfl | rfl
  · exact FixField.wf_mk (by decide) (by decide)
  · exact FixField.wf_mk (by decide) (soh_notMem_decimal _)
  · exact FixField.wf_mk (by decide) (by decide)
  · exact FixField.wf_mk (by decide) h.myId
  · exact FixField.wf_mk (by decide) h.venueId
  · exact FixField.wf_mk (by decide) (soh_notMem_decimal _)
  · exact FixField.wf_mk (by decide) (soh_notMem_timestamp _ _)
  · exact FixField.wf_mk (by decide) htoken
  · exact FixField.wf_mk (by decide) h.account
  · exact FixField.wf_mk (by decide) (by decide)

/-- With clean texts, the parser sees the fields of a built order. -/
theorem parse_clean (handlers : HandlerLookup FIXMessage) {now : ℕ} (slot : FIXMessage)
    (hlimit : order.orderType = .limit) (htif : own.timeInForce ∈ timeInForceCodes)
    (hclean : CleanTexts b order own)
    (hdata : (b.builtBuffer (.newOrderSingle order own) now).data.length ≤ maxMsgSize) :
    parse handlers (b.builtBuffer (.newOrderSingle order own) now).data
        (b.builtBuffer (.newOrderSingle order own) now).len.toNat slot
      = applyFields handlers (b.messageFields (.newOrderSingle order own) now) slot := by
  have hsymbol : soh ∉ symbolText order own := fun hmem =>
    soh_notMem_charArray hclean.symbol (List.mem_of_mem_take hmem)
  have hwf : ∀ f ∈ b.messageFields (.newOrderSingle order own) now, f.Wf := by
    intro f hf
    rw [messageFields_newOrderSingle hlimit, List.mem_append, List.mem_cons] at hf
    rcases hf with hlead | rfl | hclose
    · exact wf_leadingFields hclean now f hlead
    · exact FixField.wf_mk (by decide) hsymbol
    · exact wf_closingFields htif now f hclose
  rw [b.len_builtBuffer hdata, b.data_builtBuffer, parse_fieldsText slot hwf]

/-- The side of an order is read as another one. -/
theorem sideOfCode_ne {side : Side} (h : side = .buy ∨ side = .sell) :
    FillerFix.sideOfCode side.code ≠ side := by
  rcases h with rfl | rfl
  · decide
  · decide

end Order

/-- No limit order comes back from its own NewOrderSingle: for every session, time,
slot and whatever stands behind the handler table, a message that is parsed from it
has the wrong side. -/
theorem newOrderSingle_side_lost (hash : List UInt8 → UInt64) (beyond : HandlerLookup FIXMessage)
    (b : BuilderFIX) (order : Order) (own : OwnFields) (now : ℕ) (slot : FIXMessage)
    (h : LimitOrderText order own) : ¬ RoundTrips hash beyond b order own now slot := by
  rintro ⟨buffer, b', msg, hbuild, hparse, hrec⟩
  have hside := (parse_newOrderSingle h hbuild hparse).1
  have hread : FillerFix.sideOfCode msg.side = order.side := hrec.side
  rw [hside] at hread
  exact sideOfCode_ne h.side hread

/-- A buy order of 100 at 12.3450. -/
def buyOrder : Order :=
  { price := 123450
    quantity := 100
    side := .buy
    orderType := .limit
    symbol := ascii ['G', 'A', 'R', 'A', 'N'] }

def buyFields : OwnFields :=
  { timeInForce := 0
    realSymbolLen := 5
    realClOrdTokenLen := 2
    clientOrderToken := ascii ['T', '1'] }

theorem limitOrderText_buyOrder : LimitOrderText buyOrder buyFields where
  side := Or.inl rfl
  limit := rfl
  price := by decide
  symbol := by decide
  token := by decide

def buySession : BuilderFIX where
  day := BuilderFIX.secondOfJune
  auth := { myId := ascii ['M', 'E'], venueId := ascii ['B', 'I'], account := ascii ['7'] }

theorem newOrderSingle_side_lost_buyOrder :
    LimitOrderText buyOrder buyFields ∧
    ¬ RoundTrips (fun _ => 0) (fun _ => .ok none) buySession buyOrder buyFields 0 {} :=
  ⟨limitOrderText_buyOrder, newOrderSingle_side_lost _ _ _ _ _ _ _ limitOrderText_buyOrder⟩

/-- The order is built and parsed, with a null entry behind the table, and the buy
order is read as a sell order. -/
theorem buyOrder_read_as_sell :
    LimitOrderText buyOrder buyFields ∧
    ∃ buffer b' msg, buySession.build (.newOrderSingle buyOrder buyFields) 0 = .ok (buffer, b') ∧
      parse (tagHandlersWith fun _ => .ok none) buffer.data buffer.len.toNat {} = .ok msg ∧
      (FillerFix.fillFixNew (fun _ => 0) {} {} msg).1.side = .sell ∧
      ¬ Recovered (fun _ => 0) buyOrder buyFields msg := by
  have hprint : (FIXRequest.newOrderSingle buyOrder buyFields).Printable := by
    have hsymbol : buyFields.SymbolFits := show (5 : ℕ) ≤ 32 by decide
    exact ⟨hsymbol, fun _ => by decide, by decide⟩
  have hclean : CleanTexts buySession buyOrder buyFields := by
    constructor <;> decide
  have hdata := buySession.length_builtBuffer_le hprint 0 (by decide)
  have hbuild := (buySession.build_ok_iff).mpr
    ⟨by decide, hprint, by decide, hdata, rfl, rfl⟩
  have hparse := parse_clean (tagHandlersWith fun _ => .ok none) {} rfl
    (by decide : buyFields.timeInForce ∈ timeInForceCodes) hclean hdata
  obtain ⟨msg, hmsg⟩ : ∃ msg, applyFields (tagHandlersWith fun _ => .ok none)
      (buySession.messageFields (.newOrderSingle buyOrder buyFields) 0) {} = .ok msg := ⟨_, rfl⟩
  rw [hmsg] at hparse
  have hside := (parse_newOrderSingle limitOrderText_buyOrder hbuild hparse).1
  have hsell : FillerFix.sideOfCode msg.side = .sell := by
    rw [hside]
    decide
  refine ⟨limitOrderText_buyOrder, _, _, msg, hbuild, hparse, hsell, fun hrec => ?_⟩
  have hbuy : FillerFix.sideOfCode msg.side = .buy := hrec.side
  rw [hsell] at hbuy
  cases hbuy

end TradingEngine
