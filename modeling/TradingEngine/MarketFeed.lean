/-
Market data from the datagram to the book
(`protocol/Parser_Dispatch.cpp`, `order_management/OrderManager.cpp`, `market/MarketBook.cpp`).

The exchange sends its messages in datagrams.  The parser splits a datagram and pushes its
messages to the store one by one, the store takes and handles them, the database thread passes
them back, and the strategy, risk and builder threads set their bits in between: `MarketFeed`
takes these steps in any order.

* `MarketFeed.InStep` — the messages that were sent are those that have been handled, those that
  wait and those that the parser still has, in this order, and the book shows the exchange after
  those that have been handled;
* `depth_follows_wire` — this holds in every state of every run, at both venues.
-/
import TradingEngine.MarketHandler
import TradingEngine.MessageStore
import TradingEngine.ParserDispatch

namespace TradingEngine

open FallibleRun

/-- A parser with the handler of its messages. -/
structure MarketPath (α κ : Type) where
  source : Venue
  table : ItchTable
  parser : MessageParser α
  parses : ParsesBy parser table
  handler : MarketHandler α κ

def Bist.marketPath : MarketPath Bist.ItchMessage OrderKey where
  source := .bist
  table := Bist.itchTable
  parser := Bist.itchParser
  parses := Bist.itchParser_parsesBy
  handler := Bist.marketHandler

/-- What stands behind the datagram in memory plays no part. -/
def Nasdaq.marketPath (behind : List UInt8) : MarketPath Nasdaq.ItchMessage UInt64 where
  source := .nasdaq
  table := Nasdaq.itchTable
  parser := Nasdaq.itchParser behind
  parses := Nasdaq.itchParser_parsesBy behind
  handler := Nasdaq.marketHandler

/-! ### The exchange -/

namespace MarketHandler

variable {α κ : Type} (h : MarketHandler α κ) (om₀ : OrderManager)

/-- The orders of the exchange after some messages; `om₀` has the directory. -/
def exchangeAfter (msgs : List α) : RestingOrders κ Level :=
  msgs.foldl (h.exchangeStep om₀) (.empty (0, 0, 0))

/-- Each message is one that the exchange may send after those before it. -/
def ConsistentFrom : RestingOrders κ Level → List α → Prop
  | _, [] => True
  | x, msg :: msgs => h.Consistent om₀ x msg ∧ ConsistentFrom (h.exchangeStep om₀ x msg) msgs

variable {h om₀}

theorem exchangeAfter_append (msgs : List α) (msg : α) :
    h.exchangeAfter om₀ (msgs ++ [msg]) =
      h.exchangeStep om₀ (h.exchangeAfter om₀ msgs) msg := by
  rw [exchangeAfter, List.foldl_append]
  rfl

theorem ConsistentFrom.at {x : RestingOrders κ Level} {msgs rest : List α} {msg : α}
    (hall : h.ConsistentFrom om₀ x (msgs ++ msg :: rest)) :
    h.Consistent om₀ (msgs.foldl (h.exchangeStep om₀) x) msg := by
  induction msgs generalizing x with
  | nil => exact hall.1
  | cons m msgs ih => exact ih hall.2

theorem ConsistentFrom.prefix {x : RestingOrders κ Level} {msgs rest : List α}
    (hall : h.ConsistentFrom om₀ x (msgs ++ rest)) : h.ConsistentFrom om₀ x msgs := by
  induction msgs generalizing x with
  | nil => trivial
  | cons m msgs ih => exact ⟨hall.1, ih hall.2⟩

end MarketHandler

theorem Disposition.Agrees.not_defer {d : Disposition} {outs : List StoreOut} (h : d.Agrees outs)
    (hd : ∀ slot, d ≠ .deferred slot) (slot : OrderSlot) : .defer slot ∉ outs := by
  cases d with
  | dropped =>
    subst h
    exact List.not_mem_nil
  | ignored t =>
    subst h
    exact List.not_mem_nil
  | deferred t => exact absurd rfl (hd t)
  | applied t =>
    obtain rfl | rfl | rfl := h
    · simp
    · simp
    · simp
  | stored =>
    subst h
    simp

/-! ### The path -/

structure MarketFeed (α : Type) where
  /-- what the parser has found in its packet and not pushed yet -/
  found : List (Option α) := []
  system : StoreSystem

inductive MarketEvent {α : Type} (p : MessageParser α)
  /-- a datagram of messages has been received in a slot, and the parser splits it -/
  | datagram (slot : RxPacket) (ws : List (WireMessage p))
  /-- the parser pushes the next message of its packet -/
  | push
  /-- a step of the store or of another thread -/
  | store (e : StoreEvent)

/-- The messages that the exchange has sent with an event. -/
def MarketEvent.sent {α : Type} {p : MessageParser α} : MarketEvent p → List α
  | .datagram _ ws => ws.map WireMessage.message
  | _ => []

namespace MarketFeed

variable {α κ : Type} (hash : List UInt8 → UInt64) (path : MarketPath α κ)

def step (s : MarketFeed α) : MarketEvent path.parser → Except Fault (MarketFeed α)
  | .datagram slot ws =>
    (parseItch path.table path.parser
      (slot.recv path.source .itch (ws.flatMap WireMessage.bytes))).map
        fun msgs => { s with found := msgs }
  | .push =>
    match s.found with
    | [] => .ok s
    -- the store would follow a null pointer
    | none :: _ => .error .nullDereference
    | some msg :: rest =>
      (s.system.parse (path.handler.wrap msg)).map fun system => { found := rest, system := system }
  | .store e => (s.system.step hash e).map fun system => { s with system := system }

/-- The other threads leave the market alone, and no add is taken for an own order. -/
def Undisturbed (s : StoreSystem) : StoreEvent → Prop
  | .parse _ => False
  | .handle => ∀ obj msg, s.inHand = some obj → s.content obj = path.handler.wrap msg →
      ¬path.handler.Echo s.om.drained.toOrderManager msg
  | .others om => LeavesMarket s.om.toOrderManager om.toOrderManager
  | _ => True

/-- The next datagram is taken up when the parser is done with the last one; the packet is a
fresh one and holds the datagram; no step of the store takes a slot of a ring that is still
pointed to. -/
def Regular (s : MarketFeed α) : MarketEvent path.parser → Prop
  | .datagram slot ws => s.found = [] ∧ slot.msgCount = 0 ∧ ws.length ≤ maxAppMsg ∧
      (ws.flatMap WireMessage.bytes).length ≤ packetSize
  | .push => ∀ msg rest, s.found = some msg :: rest →
      s.system.Ready hash (.parse (path.handler.wrap msg))
  | .store e => s.system.Ready hash e ∧ Undisturbed path s.system e

/-- The messages that have been sent and not been handled: in the hand of the store, in its
queue, and with the parser. -/
def underWay (s : MarketFeed α) : List StoreMessage :=
  (s.system.inHand.toList ++
    s.system.pipe.parserToStore.items.filterMap s.system.pipe.msgWrappers.slots).map
      s.system.content ++ s.found.filterMap (Option.map path.handler.wrap)

/-- The book shows the exchange after some of the messages, and the others are under way. -/
def ShowsExchange (om₀ : OrderManager) (sent : List α) (s : MarketFeed α) : Prop :=
  ∃ handled waiting, sent = handled ++ waiting ∧
    s.underWay path = waiting.map path.handler.wrap ∧
    ∀ i side price, ShowsDepth (s.system.om.marketbook.level path.handler.venue i side price)
      ((path.handler.exchangeAfter om₀ handled).depth (i, side, price))

/-! ### The invariant -/

/-- A feed and the store without pools that it refines. -/
structure InStep (om₀ : OrderManager) (handled waiting rest : List α) (s : MarketFeed α)
    (a : MessageStore) : Prop where
  found : s.found = rest.map some
  queued : a.queues.inHand.toList ++ a.queues.parserToStore = waiting.map path.handler.wrap
  pending : a.queues.pendingToStrategy = []
  sound : path.handler.Sound a.om.toOrderManager (path.handler.exchangeAfter om₀ handled)
  symbols : SameSymbols om₀ a.om.toOrderManager

/-- The invariant of a run. -/
def Inv (om₀ : OrderManager) (sent : List α) (s : MarketFeed α) : Prop :=
  ∃ a l handled waiting rest, s.system.Refines a l ∧ sent = handled ++ waiting ++ rest ∧
    InStep path om₀ handled waiting rest s a

variable {hash path} {om₀ : OrderManager} {s s' : MarketFeed α} {a : MessageStore}
  {handled waiting rest sent : List α}

theorem inv_start {om : OwnManager} (size : MessagePool → ℕ)
    (hfresh : FreshMarket om.toOrderManager path.handler.venue) :
    Inv path om.toOrderManager [] { system := StoreSystem.start om size } :=
  ⟨_, _, [], [], [], StoreSystem.refines_start om size, rfl, rfl, rfl, rfl,
    path.handler.sound_start hfresh, .refl om.toOrderManager⟩

/-- A datagram is split into its messages. -/
theorem inv_datagram (hinv : Inv path om₀ sent s) {slot : RxPacket}
    {ws : List (WireMessage path.parser)} (hregular : Regular hash path s (.datagram slot ws))
    (hs : step hash path s (.datagram slot ws) = .ok s') :
    Inv path om₀ (sent ++ ws.map WireMessage.message) s' := by
  obtain ⟨a, l, handled, waiting, rest, href, rfl, hin⟩ := hinv
  obtain ⟨hnone, hcount, hroom, hlen⟩ := hregular
  have hrest : rest = [] := List.map_eq_nil_iff.mp (hin.found.symm.trans hnone)
  obtain ⟨msgs, hmsgs, rfl⟩ := map_eq_ok_iff.mp hs
  rw [parseItch_datagram path.parses hcount path.source ws hroom hlen, Except.ok.injEq] at hmsgs
  refine ⟨a, l, handled, waiting, ws.map WireMessage.message, href, ?_, ?_, hin.queued, hin.pending,
    hin.sound, hin.symbols⟩
  · rw [hrest, List.append_nil]
  · rw [← hmsgs, List.map_map]
    rfl

/-- A message that is pushed waits behind the others. -/
theorem inv_push (hinv : Inv path om₀ sent s) (hregular : Regular hash path s .push)
    (hs : step hash path s .push = .ok s') : Inv path om₀ sent s' := by
  obtain ⟨a, l, handled, waiting, rest, href, rfl, hin⟩ := hinv
  have hfound := hin.found
  cases rest with
  | nil =>
    simp only [step, hfound, List.map_nil, Except.ok.injEq] at hs
    exact hs ▸ ⟨a, l, handled, waiting, [], href, rfl, hin⟩
  | cons msg rest =>
    rw [List.map_cons] at hfound
    simp only [step, hfound] at hs
    obtain ⟨system, hsystem, rfl⟩ := map_eq_ok_iff.mp hs
    obtain ⟨l', href'⟩ := StoreSystem.refines_parse href (hregular msg _ hfound) hsystem
    refine ⟨_, l', handled, waiting ++ [msg], rest, href', ?_, rfl, ?_, hin.pending, hin.sound,
      hin.symbols⟩
    · simp only [List.append_assoc, List.singleton_append]
    · show a.queues.inHand.toList ++ (a.queues.parserToStore ++ [_]) = _
      rw [← List.append_assoc, hin.queued, List.map_append, List.map_singleton]

/-- Taking a message moves it from the queue into the hand. -/
theorem inStep_take (hin : InStep path om₀ handled waiting rest s a) (system : StoreSystem) :
    InStep path om₀ handled waiting rest { s with system := system } a.take := by
  have hpending : a.takesPending = false := by
    rw [MessageStore.takesPending, hin.pending]
  unfold MessageStore.take
  split
  · exact ⟨hin.found, hin.queued, hin.pending, hin.sound, hin.symbols⟩
  · rename_i hnone
    rw [hpending, if_neg Bool.false_ne_true]
    have hhand : a.queues.inHand = none := by simpa using hnone
    have hqueued := hin.queued
    rw [hhand, Option.toList_none, List.nil_append] at hqueued
    cases hq : a.queues.parserToStore with
    | nil =>
      refine ⟨hin.found, ?_, ?_, hin.sound, hin.symbols⟩
      · simp only [Ledger.step, hq]
        rw [hhand, ← hqueued, hq]
        rfl
      · simp only [Ledger.step, hq]
        exact hin.pending
    | cons msg queue =>
      refine ⟨hin.found, ?_, ?_, hin.sound, hin.symbols⟩
      · simp only [Ledger.step, hq]
        rw [← hqueued, hq]
        rfl
      · simp only [Ledger.step, hq]
        exact hin.pending

/-- What the other threads do to the manager does not matter here. -/
theorem InStep.leaves (hin : InStep path om₀ handled waiting rest s a) {om : OwnManager}
    (hom : LeavesMarket a.om.toOrderManager om.toOrderManager) (system : StoreSystem) :
    InStep path om₀ handled waiting rest { s with system := system } { a with om := om } :=
  ⟨hin.found, hin.queued, hin.pending, path.handler.sound_leaves hin.sound hom,
    hin.symbols.trans hom.toSameSymbols⟩

/-- Handling a message is a step of the exchange. -/
theorem inStep_handle (hin : InStep path om₀ handled waiting rest s a) {a' : MessageStore}
    (hwire : path.handler.ConsistentFrom om₀ (.empty (0, 0, 0)) (handled ++ waiting))
    (hecho : ∀ msg, a.queues.inHand = some (path.handler.wrap msg) →
      ¬path.handler.Echo a.om.drained.toOrderManager msg)
    (system : StoreSystem) (hs : a.handle hash = .ok a') :
    ∃ handled' waiting', handled ++ waiting = handled' ++ waiting' ∧
      InStep path om₀ handled' waiting' rest { s with system := system } a' := by
  have hqueued := hin.queued
  cases hhand : a.queues.inHand with
  | none =>
    simp only [MessageStore.handle, hhand, Except.ok.injEq] at hs
    exact ⟨handled, waiting, rfl, hs ▸ ⟨hin.found, hin.queued, hin.pending, hin.sound, hin.symbols⟩⟩
  | some inHand =>
    rw [hhand, Option.toList_some, List.singleton_append] at hqueued
    cases waiting with
    | nil => cases hqueued
    | cons msg waiting =>
      rw [List.map_cons, List.cons.injEq] at hqueued
      obtain ⟨rfl, hqueue⟩ := hqueued
      simp only [MessageStore.handle, hhand] at hs
      obtain ⟨om, hom, rfl⟩ := map_eq_ok_iff.mp hs
      have hleaves := leavesMarket_drained a.om
      have hsymbols := hin.symbols.trans hleaves.toSameSymbols
      have hsound := path.handler.sound_leaves hin.sound hleaves
      have hok := path.handler.consistent_congr hsymbols (hecho msg hhand) hwire.at
      -- the handler returns and keeps the book in step
      obtain ⟨market, hmarket, hsound', hsymbols'⟩ := path.handler.sound_step hsound hok
      have hdefer := (OwnManager.update_agrees a.om.silent_drained hom).not_defer
        (path.handler.not_deferred hsound hok)
      rw [path.handler.update_wrap] at hom
      obtain ⟨market', hmarket', rfl⟩ := map_eq_ok_iff.mp hom
      obtain rfl : market = market' := Except.ok.inj (hmarket.symm.trans hmarket')
      rw [path.handler.exchangeStep_congr _ msg hsymbols,
        ← MarketHandler.exchangeAfter_append] at hsound'
      obtain ⟨hqueue', hhand'⟩ := a.queues.handle_front market.outputs
      have hempty := leavesMarket_drained { a.om.drained with toOrderManager := market }
      refine ⟨handled ++ [msg], waiting, by rw [List.append_assoc, List.singleton_append],
        hin.found, ?_, ?_, path.handler.sound_leaves hsound' hempty,
        (hsymbols.trans hsymbols').trans hempty.toSameSymbols⟩
      · show (a.queues.step _).inHand.toList ++ (a.queues.step _).parserToStore = _
        rw [hqueue', hhand', Option.toList_none, List.nil_append]
        exact hqueue
      · exact (a.queues.handle_pending hdefer).trans hin.pending

/-- A step of the store or of another thread. -/
theorem inv_store (hinv : Inv path om₀ sent s) {e : StoreEvent}
    (hregular : Regular hash path s (.store e))
    (hwire : path.handler.ConsistentFrom om₀ (.empty (0, 0, 0)) sent)
    (hs : step hash path s (.store e) = .ok s') : Inv path om₀ sent s' := by
  obtain ⟨a, l, handled, waiting, rest, href, rfl, hin⟩ := hinv
  obtain ⟨hready, hundisturbed⟩ := hregular
  obtain ⟨system, hsystem, rfl⟩ := map_eq_ok_iff.mp hs
  obtain ⟨a', l', ha', href'⟩ := StoreSystem.refines_step href hready hsystem
  have hfront : ∀ {queues : Ledger StoreMessage}, a.queues.SameFront queues →
      InStep path om₀ handled waiting rest { s with system := system }
        { a with queues := queues } := by
    intro queues hsame
    refine ⟨hin.found, ?_, hsame.pending.trans hin.pending, hin.sound, hin.symbols⟩
    show queues.inHand.toList ++ queues.parserToStore = _
    rw [hsame.hand, hsame.queue]
    exact hin.queued
  cases e with
  | parse msg => exact hundisturbed.elim
  | take =>
    rw [MessageStore.step, Except.ok.injEq] at ha'
    subst ha'
    exact ⟨_, l', handled, waiting, rest, href', rfl, inStep_take hin system⟩
  | handle =>
    have hecho : ∀ msg, a.queues.inHand = some (path.handler.wrap msg) →
        ¬path.handler.Echo a.om.drained.toOrderManager msg := by
      intro msg hmsg
      rw [href.reads.hand, ← StoreFront.inHand_eq href.represents, Option.map_eq_some_iff] at hmsg
      obtain ⟨obj, hobj, hcontent⟩ := hmsg
      rw [← href.om]
      exact hundisturbed obj msg hobj hcontent
    obtain ⟨handled', waiting', hsplit, hin'⟩ := inStep_handle hin hwire.prefix hecho system ha'
    exact ⟨a', l', handled', waiting', rest, href', by rw [hsplit], hin'⟩
  | write =>
    rw [MessageStore.step, Except.ok.injEq] at ha'
    subst ha'
    exact ⟨_, l', handled, waiting, rest, href', rfl, hfront a.queues.sameFront_write⟩
  | flush =>
    rw [MessageStore.step, Except.ok.injEq] at ha'
    subst ha'
    exact ⟨_, l', handled, waiting, rest, href', rfl, hfront a.queues.sameFront_flush⟩
  | others om =>
    rw [MessageStore.step, Except.ok.injEq] at ha'
    subst ha'
    refine ⟨_, l', handled, waiting, rest, href', rfl, ?_⟩
    have hleaves : LeavesMarket a.om.toOrderManager om.toOrderManager := href.om ▸ hundisturbed
    exact hin.leaves hleaves system

/-- **One step of the path.** -/
theorem inv_step (hinv : Inv path om₀ sent s) {e : MarketEvent path.parser}
    (hregular : Regular hash path s e)
    (hwire : path.handler.ConsistentFrom om₀ (.empty (0, 0, 0)) sent)
    (hs : step hash path s e = .ok s') : Inv path om₀ (sent ++ e.sent) s' := by
  cases e with
  | datagram slot ws => exact inv_datagram hinv hregular hs
  | push =>
    show Inv path om₀ (sent ++ []) s'
    rw [List.append_nil]
    exact inv_push hinv hregular hs
  | store e =>
    show Inv path om₀ (sent ++ []) s'
    rw [List.append_nil]
    exact inv_store hinv hregular hwire hs

/-- **A run of the path.** -/
theorem inv_exec (hinv : Inv path om₀ sent s) {es : List (MarketEvent path.parser)}
    (hregular : Along (step hash path) (Regular hash path) s es)
    (hwire : path.handler.ConsistentFrom om₀ (.empty (0, 0, 0))
      (sent ++ es.flatMap MarketEvent.sent))
    (hrun : exec (step hash path) s es = .ok s') :
    Inv path om₀ (sent ++ es.flatMap MarketEvent.sent) s' := by
  induction es generalizing s sent with
  | nil =>
    rw [exec_nil, Except.ok.injEq] at hrun
    rw [List.flatMap_nil, List.append_nil]
    exact hrun ▸ hinv
  | cons e es ih =>
    obtain ⟨u, hu, hrest⟩ := exec_cons_eq_ok_iff.mp hrun
    rw [List.flatMap_cons, ← List.append_assoc] at hwire ⊢
    exact ih (inv_step hinv hregular.1 hwire.prefix.prefix hu) (hregular.2 u hu) hwire hrest

theorem Inv.shows (hinv : Inv path om₀ sent s) : ShowsExchange path om₀ sent s := by
  obtain ⟨a, l, handled, waiting, rest, href, rfl, hin⟩ := hinv
  refine ⟨handled, waiting ++ rest, List.append_assoc _ _ _, ?_, fun i side price => ?_⟩
  · have hqueue := filterMap_of_map_some href.represents.queue
    have hhand : s.system.inHand = l.inHand := StoreFront.inHand_eq href.represents
    have hqueued := hin.queued
    rw [href.reads.hand, href.reads.queue] at hqueued
    rw [underWay, hqueue, hhand, hin.found, List.map_append, List.map_append, ← hqueued,
      List.filterMap_map]
    congr 1
    · cases l.inHand <;> rfl
    · show rest.filterMap (some ∘ path.handler.wrap) = _
      rw [List.filterMap_eq_map]
  · rw [href.om]
    exact path.handler.depth hin.sound i side price

/-- When nothing is under way, the book shows all that was sent. -/
theorem ShowsExchange.all (h : ShowsExchange path om₀ sent s) (hidle : s.underWay path = []) :
    ∀ i side price, ShowsDepth (s.system.om.marketbook.level path.handler.venue i side price)
      ((path.handler.exchangeAfter om₀ sent).depth (i, side, price)) := by
  obtain ⟨handled, waiting, rfl, hwaiting, hdepth⟩ := h
  have hnone : waiting = [] := List.map_eq_nil_iff.mp (hwaiting.symm.trans hidle)
  rw [hnone, List.append_nil]
  exact hdepth

end MarketFeed

open MarketFeed

/-- The add of 5 at 100 on the wire. -/
def bidMessage : WireMessage Bist.itchParser where
  type := 65
  handler := Bist.parseAddOrder
  row := (1, 5, 0, 0, 7, 0, 100, 0, 0, 65, 66, ())
  known := rfl
  typed := by decide

/-- A fresh engine that knows one instrument. -/
def oneStockFeed : MarketFeed Bist.ItchMessage :=
  { system := StoreSystem.start { toOrderManager := oneStock } fun _ => 1 }

def bidEvents : List (MarketEvent Bist.marketPath.parser) :=
  [.datagram {} [bidMessage], .push, .store .take, .store .handle]

theorem step_bidMessage (s : MarketFeed Bist.ItchMessage) :
    MarketFeed.step (fun _ => 0) Bist.marketPath s (.datagram {} [bidMessage]) =
      .ok { s with found := [some (.addOrder bistBid)] } := by
  have hcount : ({} : RxPacket).msgCount = 0 := rfl
  have hparse := parseItch_datagram Bist.itchParser_parsesBy hcount .bist [bidMessage]
    (by decide) (by decide)
  exact congrArg (Except.map fun msgs => { s with found := msgs }) hparse

set_option maxRecDepth 4000 in
theorem bidEvents_runs :
    ∃ t, exec (MarketFeed.step (fun _ => 0) Bist.marketPath) oneStockFeed bidEvents = .ok t ∧
      t.underWay Bist.marketPath = [] :=
  ⟨_, (exec_cons_ok _ (step_bidMessage _)).trans rfl, rfl⟩

set_option maxRecDepth 4000 in
theorem bidEvents_regular :
    Along (MarketFeed.step (fun _ => 0) Bist.marketPath)
      (Regular (fun _ => 0) Bist.marketPath) oneStockFeed bidEvents := by
  have hempty : ∀ d : Fin 2048, d ∉ ([] : List (Fin 2048)) := fun _ => List.not_mem_nil
  refine along_cons _ ⟨rfl, rfl, by decide, by decide⟩ (step_bidMessage _) ?_
  refine along_cons _ ?_ rfl ?_
  · intro msg rest _ obj _
    exact ⟨⟨hempty _, nofun, fun q hq => nomatch hq⟩, by decide⟩
  · refine along_cons _ ⟨ready_take_fresh rfl, trivial⟩ rfl ?_
    refine along_cons _ ⟨?_, ?_⟩ rfl trivial
    · -- the order and the message take two items for the database
      intro obj om hobj hom w obj' hw hobj'
      cases hobj
      cases hom
      cases hw
      cases hobj'
      refine ⟨fun d hd => absurd hd List.not_mem_nil, ⟨⟨hempty _, hempty _⟩, by decide⟩, ?_⟩
      exact ⟨⟨⟨by decide, hempty _⟩, by decide⟩, trivial⟩
    · intro obj msg hobj hmsg
      cases hobj
      cases hmsg
      exact fun hecho => hecho.1 rfl

end TradingEngine
