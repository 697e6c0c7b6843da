import Perigee.EnglishAuction.Contract

/-!
# How an auction ends

Before the settlement the calls of the auction have taken the highest bid from the highest bidder
and nothing from anybody else (`Standing`).  At the end ledger the settlement goes through if there
is a bid or a positive reserve price: otherwise the contract takes the sentinel bid of zero for a
sale and has no winner to give the token to.  Nothing marks a settlement: it happens once as long as
nobody gives the token back to the auction (`settled_once`).
-/

namespace EnglishAuction

open Soroban

variable {Address : Type} {this : Address}

/-! ## Bids -/

def bidsOf (actions : List (Action this)) : List (Bid Address) :=
  actions.filterMap fun
    | .call _ (.bid bidder amount) => some ⟨bidder, amount⟩
    | _ => none

def settlements (actions : List (Action this)) : ℕ := actions.countP Action.isSettlement

/-- Nobody gives the token on sale to the auction. -/
def NotReturned (s : Traced Address) : Action this → Prop
  | .others _ _ nfts => ∀ auction, s.world.auction = some auction →
      nfts auction.nftContract auction.tokenId = some this →
      s.world.nfts auction.nftContract auction.tokenId = some this
  | .call _ _ => True

def Auction.Met (auction : Auction Address) : Prop :=
  auction.bids ≠ [] ∧ auction.reservePrice ≤ auction.highestBid

/-- The highest bid is the last one, and it is zero if there is none. -/
structure Ranked (auction : Auction Address) : Prop where
  last : auction.bids.getLast? =
    auction.highestBidder.map fun bidder => ⟨bidder, auction.highestBid⟩
  top : ∀ b ∈ auction.bids, b.amount ≤ auction.highestBid
  zero : auction.bids = [] → auction.highestBid = 0
  positive : auction.bids ≠ [] → 0 < auction.highestBid

section Ranked

variable {auction : Auction Address}

theorem Ranked.nil_iff (ranked : Ranked auction) :
    auction.bids = [] ↔ auction.highestBidder = none := by
  rw [← List.getLast?_eq_none_iff, ranked.last, Option.map_eq_none_iff]

theorem Ranked.nonneg (ranked : Ranked auction) : 0 ≤ auction.highestBid := by
  by_cases none : auction.bids = []
  · exact (ranked.zero none).ge
  · exact (ranked.positive none).le

theorem Ranked.next (ranked : Ranked auction) {bidder : Address} {amount : ℤ}
    (higher : auction.highestBid < amount) :
    Ranked { auction with
      highestBidder := some bidder
      highestBid := amount
      bids := auction.bids ++ [⟨bidder, amount⟩] } := by
  have nonneg := ranked.nonneg
  refine ⟨by simp, fun b mem => ?_, fun none => by simp at none, fun _ => nonneg.trans_lt higher⟩
  rw [List.mem_append, List.mem_singleton] at mem
  rcases mem with earlier | rfl
  · exact (ranked.top b earlier).trans higher.le
  · exact le_rfl

end Ranked

theorem bidsOf_snoc (actions : List (Action this)) (action : Action this) :
    bidsOf (actions ++ [action]) = bidsOf actions ++ match action with
      | .call _ (.bid bidder amount) => [⟨bidder, amount⟩]
      | _ => [] := by
  rw [bidsOf, List.filterMap_append]
  rcases action with ⟨_, _ | _ | _⟩ | _ <;> rfl

theorem settlements_snoc (actions : List (Action this)) (action : Action this) :
    settlements (actions ++ [action]) =
      settlements actions + if action.isSettlement then 1 else 0 := by
  rw [settlements, List.countP_append, List.countP_singleton]
  rfl

variable [DecidableEq Address]

/-! ## What a call does -/

section Effects

variable {env : Env this} {call : Call Address} {w w' : World Address}

/-- What a call that returns has found and done.  A settlement sells or returns the token. -/
inductive Effect (env : Env this) (w : World Address) : Call Address → World Address → Prop
  | initializeAuction {seller nftContract : Address} {tokenId : ℤ} {paymentToken : Address}
      {startingPrice reservePrice : ℤ} {durationLedgers : ℕ} (fresh : w.auction = none) :
      Effect env w (.initializeAuction seller nftContract tokenId paymentToken startingPrice
          reservePrice durationLedgers)
        { w with auction := some {
          seller, nftContract, tokenId, paymentToken, startingPrice, reservePrice
          endLedger := env.sequence + durationLedgers } }
  | bid {bidder : Address} {amount : ℤ} {auction : Auction Address} {paid tokens : Tokens Address}
      (auth : env.auth bidder = true) (stored : w.auction = some auction)
      (running : env.sequence < auction.endLedger) (higher : auction.highestBid < amount)
      (payment : (w.tokens.transfer auction.paymentToken bidder this amount : Result _) = .ok paid)
      (refunded : refund this auction paid = .ok tokens) :
      Effect env w (.bid bidder amount) { w with
        tokens
        auction := some { auction with
          highestBidder := some bidder
          highestBid := amount
          bids := auction.bids ++ [⟨bidder, amount⟩] } }
  | sold {auction : Auction Address} {winner : Address} {tokens : Tokens Address}
      (stored : w.auction = some auction) (ended : auction.endLedger ≤ env.sequence)
      (met : auction.reservePrice ≤ auction.highestBid)
      (best : auction.highestBidder = some winner)
      (held : w.nfts auction.nftContract auction.tokenId = some this)
      (payment : (w.tokens.transfer auction.paymentToken this auction.seller auction.highestBid :
        Result _) = .ok tokens) :
      Effect env w .endAuction
        { w with tokens, nfts := w.nfts.give auction.nftContract auction.tokenId winner }
  | unsold {auction : Auction Address} {tokens : Tokens Address}
      (stored : w.auction = some auction) (ended : auction.endLedger ≤ env.sequence)
      (unmet : auction.highestBid < auction.reservePrice)
      (refunded : refund this auction w.tokens = .ok tokens)
      (held : w.nfts auction.nftContract auction.tokenId = some this) :
      Effect env w .endAuction
        { w with tokens, nfts := w.nfts.give auction.nftContract auction.tokenId auction.seller }

theorem exec_effect (h : exec env w call = .ok w') : Effect env w call w' := by
  cases call with
  | initializeAuction =>
    simp only [exec, initializeAuction, ok_iff] at h
    obtain ⟨_, fresh, _, ⟨-, rfl⟩, rfl⟩ := h
    exact .initializeAuction fresh
  | bid =>
    simp only [exec, bid, ok_iff, requireAuth_ok_iff] at h
    obtain ⟨_, auth, auction, stored, _, running, _, -, _, higher, _, payment, tokens, refunded,
      rfl⟩ := h
    exact .bid auth stored running higher payment refunded
  | endAuction =>
    simp only [exec, endAuction, ok_iff] at h
    obtain ⟨auction, stored, _, ended, h⟩ := h
    split_ifs at h with met
    · simp only [ok_iff, Nfts.transfer_ok_iff] at h
      obtain ⟨_, best, _, ⟨held, rfl⟩, tokens, payment, rfl⟩ := h
      exact .sold stored ended met best held payment
    · simp only [ok_iff, Nfts.transfer_ok_iff] at h
      obtain ⟨tokens, refunded, _, ⟨held, rfl⟩, rfl⟩ := h
      exact .unsold stored ended (not_le.1 met) refunded held

end Effects

/-! ## Refunds -/

/-- What the auction has to give back to a bidder. -/
def Auction.owed (auction : Auction Address) (holder : Address) : ℤ :=
  if auction.highestBidder = some holder then auction.highestBid else 0

section Refunds

variable {auction : Auction Address} {t t' : Tokens Address}

theorem refund_apply (ranked : Ranked auction) (h : refund this auction t = .ok t')
    (token holder : Address) :
    t' token holder = t token holder + if token = auction.paymentToken then
      auction.owed holder - (if holder = this then auction.highestBid else 0) else 0 := by
  unfold refund at h
  split_ifs at h with bid
  · obtain ⟨bidder, best, moved⟩ := bind_ok_iff.1 h
    rw [unwrap_ok_iff] at best
    rw [Tokens.transfer_apply moved, Auction.owed, best]
    by_cases same : token = auction.paymentToken
    · simp only [same, true_and, if_true, Option.some.injEq, eq_comm (a := bidder)]
      ring
    · simp [same]
  · obtain rfl := pure_ok_iff.1 h
    have none : auction.highestBid = 0 := le_antisymm (not_lt.1 bid) ranked.nonneg
    simp [Auction.owed, none]

end Refunds

/-! ## Before and after the settlement -/

/-- Before the settlement: the auction holds the token, its calls have taken from each account what
the auction owes it, and it has the highest bid. -/
structure Standing (this : Address) (s : Traced Address) (auction : Auction Address) : Prop where
  held : s.world.nfts auction.nftContract auction.tokenId = some this
  taken : ∀ token holder, s.taken token holder = if token = auction.paymentToken then
    auction.owed holder - (if holder = this then auction.highestBid else 0) else 0
  covered : auction.highestBid ≤ s.world.tokens auction.paymentToken this

/-- After any run: the auction follows from the bids that were made. -/
structure Kept (actions : List (Action this)) (s : Timed (Traced Address))
    (auction : Auction Address) : Prop where
  stored : s.state.world.auction = some auction
  recorded : auction.bids = bidsOf actions
  ranked : Ranked auction
  outside : auction.highestBidder ≠ some this
  standing : settlements actions = 0 → Standing this s.state auction
  ended : settlements actions ≠ 0 → auction.endLedger ≤ s.now

/-- After a settlement the auction does not hold the token. -/
def Gone (actions : List (Action this)) (s : Timed (Traced Address)) (auction : Auction Address) :
    Prop :=
  settlements actions ≠ 0 → auction.seller ≠ this ∨ auction.Met → settlements actions = 1 ∧
    s.state.world.nfts auction.nftContract auction.tokenId ≠ some this

section Kept

variable {actions : List (Action this)} {action : Action this} {s s' : Timed (Traced Address)}
  {auction : Auction Address}

theorem kept_of_opened (opened : Opened this s) :
    ∃ auction, Kept ([] : List (Action this)) s auction := by
  obtain ⟨env, w, seller, nftContract, tokenId, paymentToken, startingPrice, reservePrice,
    durationLedgers, done, -⟩ := opened.initialized
  have effect : Effect env w (.initializeAuction seller nftContract tokenId paymentToken
    startingPrice reservePrice durationLedgers) s.state.world := exec_effect done
  have untouched := opened.untouched
  have held := opened.held
  have nonneg := opened.nonneg
  obtain ⟨⟨_, taken⟩, _⟩ := s
  cases effect with
  | initializeAuction =>
    obtain rfl : taken = _ := untouched
    refine ⟨_, rfl, rfl, ⟨rfl, List.forall_mem_nil _, fun _ => rfl, fun some => absurd rfl some⟩,
      Option.some_ne_none _ ∘ Eq.symm, fun _ => ⟨held _ rfl, fun _ _ => ?_, nonneg _⟩,
      fun h => absurd rfl h⟩
    simp [Auction.owed]

theorem Standing.bid {t : Traced Address} (standing : Standing this t auction)
    (ranked : Ranked auction) (outside : auction.highestBidder ≠ some this) {bidder : Address}
    (other : bidder ≠ this) {amount : ℤ} {paid tokens : Tokens Address}
    (payment : (t.world.tokens.transfer auction.paymentToken bidder this amount : Result _) =
      .ok paid) (refunded : refund this auction paid = .ok tokens) :
    let next : Auction Address := { auction with
      highestBidder := some bidder
      highestBid := amount
      bids := auction.bids ++ [⟨bidder, amount⟩] }
    Standing this ⟨{ t.world with tokens, auction := some next }, fun token holder =>
      t.taken token holder + (t.world.tokens token holder - tokens token holder)⟩ next := by
  refine ⟨standing.held, fun token holder => ?_, ?_⟩
  · have before := standing.taken token holder
    have first := Tokens.transfer_apply payment token holder
    have second := refund_apply ranked refunded token holder
    simp only [Auction.owed] at before second ⊢
    by_cases pays : token = auction.paymentToken
    · by_cases own : holder = this <;> by_cases bids : bidder = holder <;>
        simp_all [eq_comm] <;> omega
    · simp_all
  · have first := Tokens.transfer_apply payment auction.paymentToken this
    have second := refund_apply ranked refunded auction.paymentToken this
    have covered := standing.covered
    simp only [Auction.owed, outside, other.symm, if_true, if_false, and_false, and_true]
      at first second
    change amount ≤ tokens auction.paymentToken this
    omega

/-- A settlement gives the token to somebody else, unless the seller is the auction itself. -/
theorem Kept.settle (kept : Kept actions s auction) {env : Env this} {receiver : Address}
    {tokens taken : Tokens Address} (ended : auction.endLedger ≤ env.sequence)
    (held : s.state.world.nfts auction.nftContract auction.tokenId = some this)
    (away : auction.seller ≠ this ∨ auction.Met → receiver ≠ this) :
    let s' : Timed (Traced Address) := ⟨⟨{ s.state.world with
      tokens, nfts := s.state.world.nfts.give auction.nftContract auction.tokenId receiver },
      taken⟩, env.sequence⟩
    Kept (actions ++ [.call env .endAuction]) s' auction ∧
      (Gone actions s auction → Gone (actions ++ [.call env .endAuction]) s' auction) := by
  have count := settlements_snoc actions (.call env .endAuction)
  refine ⟨⟨kept.stored, ?_, kept.ranked, kept.outside, fun h => ?_, fun _ => ended⟩,
    fun gone _ sold => ⟨?_, ?_⟩⟩
  · rw [bidsOf_snoc, List.append_nil, kept.recorded]
  · rw [count] at h
    exact absurd h (Nat.succ_ne_zero _)
  · have first : settlements actions = 0 := by
      by_contra settled
      exact (gone settled sold).2 held
    rw [count, first]
    rfl
  · simpa using away sold

theorem Kept.step (kept : Kept actions s auction) (step : s.Step Action.sequence Step action s') :
    ∃ auction', Kept (actions ++ [action]) s' auction' ∧
      (NotReturned s.state action → Gone actions s auction →
        Gone (actions ++ [action]) s' auction') := by
  obtain ⟨later, now, step⟩ := step
  obtain ⟨⟨_, _⟩, now'⟩ := s'
  cases action with
  | others sequence tokens nfts =>
    obtain ⟨given, unmoved, moved⟩ := step
    obtain rfl : now' = sequence := now
    obtain ⟨rfl, rfl⟩ := Traced.mk.inj moved
    have same := settlements_snoc actions (.others now' tokens nfts)
    refine ⟨auction, ⟨kept.stored, ?_, kept.ranked, kept.outside, fun unsettled => ?_,
      fun settled => ?_⟩, fun kept_away gone settled sold => ?_⟩
    · rw [bidsOf_snoc, List.append_nil, kept.recorded]
    · rw [same] at unsettled
      have standing := kept.standing unsettled
      exact ⟨unmoved _ _ standing.held, standing.taken, standing.covered.trans (given _)⟩
    · rw [same] at settled
      exact (kept.ended settled).trans later
    · rw [same] at settled ⊢
      obtain ⟨once, away⟩ := gone settled sold
      exact ⟨once, fun back => away (kept_away auction kept.stored back)⟩
  | call env =>
    obtain ⟨done, counted⟩ := step
    obtain rfl : now' = env.sequence := now
    simp only at done counted
    subst counted
    cases exec_effect done with
    | initializeAuction fresh => simp [kept.stored] at fresh
    | @bid bidder amount _ _ _ auth stored running higher payment refunded =>
      obtain rfl := Option.mem_unique kept.stored stored
      have unsettled : settlements actions = 0 := by
        by_contra settled
        exact absurd running (not_lt.2 ((kept.ended settled).trans later))
      have count : settlements (actions ++ [Action.call env (.bid bidder amount)]) = 0 := by
        rw [settlements_snoc, unsettled]
        rfl
      have other := Env.ne_this auth
      refine ⟨_, ⟨rfl, ?_, kept.ranked.next higher, ?_, fun _ => ?_, fun h => absurd count h⟩,
        fun _ _ h => absurd count h⟩
      · rw [bidsOf_snoc, ← kept.recorded]
      · simpa using other
      · exact (kept.standing unsettled).bid kept.ranked kept.outside other payment refunded
    | @sold _ _ _ stored ended _ best held =>
      obtain rfl := Option.mem_unique kept.stored stored
      have away (_ : auction.seller ≠ this ∨ auction.Met) : _ ≠ this := fun own =>
        kept.outside (own ▸ best)
      exact ⟨auction, (kept.settle ended held away).1, fun _ => (kept.settle ended held away).2⟩
    | @unsold _ _ stored ended unmet _ held =>
      obtain rfl := Option.mem_unique kept.stored stored
      have away (sold : auction.seller ≠ this ∨ auction.Met) : auction.seller ≠ this :=
        sold.resolve_right fun met => absurd met.2 (not_le.2 unmet)
      exact ⟨auction, (kept.settle ended held away).1, fun _ => (kept.settle ended held away).2⟩

theorem kept_of_run {s₀ : Timed (Traced Address)} (opened : Opened this s₀)
    (run : Run (Timed.Step Action.sequence Step) s₀ actions s) :
    ∃ auction, Kept actions s auction := by
  induction run with
  | nil => exact kept_of_opened opened
  | snoc _ last ih =>
    obtain ⟨auction, kept⟩ := ih
    obtain ⟨auction', kept', -⟩ := kept.step last
    exact ⟨auction', kept'⟩

theorem gone_of_run {s₀ : Timed (Traced Address)} (opened : Opened this s₀)
    (run : Run (Timed.Step Action.sequence (Guarded NotReturned Step)) s₀ actions s) :
    ∃ auction, Kept actions s auction ∧ Gone actions s auction := by
  induction run with
  | nil =>
    obtain ⟨auction, kept⟩ := kept_of_opened opened
    exact ⟨auction, kept, fun h => absurd rfl h⟩
  | snoc _ last ih =>
    obtain ⟨auction, kept, gone⟩ := ih
    obtain ⟨later, now, away, step⟩ := last
    obtain ⟨auction', kept', gone'⟩ := kept.step ⟨later, now, step⟩
    exact ⟨auction', kept', gone' away gone⟩

end Kept

/-! ## Settling -/

/-- What a settlement has to do: sell the token if some bid meets the reserve price, and otherwise
return it and the bid. -/
structure Settles (this : Address) (auction : Auction Address) (w w' : World Address) : Prop where
  sale : auction.Met → ∃ winner, auction.highestBidder = some winner ∧
    w'.nfts = w.nfts.give auction.nftContract auction.tokenId winner ∧
    (w.tokens.transfer auction.paymentToken this auction.seller auction.highestBid : Result _) =
      .ok w'.tokens
  noSale : ¬ auction.Met →
    w'.nfts = w.nfts.give auction.nftContract auction.tokenId auction.seller ∧
    ∀ token holder, w'.tokens token holder = w.tokens token holder +
      if token = auction.paymentToken then
        auction.owed holder - (if holder = this then auction.highestBid else 0) else 0

section Settle

variable {actions : List (Action this)} {s : Timed (Traced Address)} {auction : Auction Address}
  {env : Env this} {w' : World Address}

/-- A settlement sells or returns the token, and there is a bid or a positive reserve price. -/
theorem Kept.settles (kept : Kept actions s auction)
    (done : endAuction env s.state.world = .ok w') :
    Settles this auction s.state.world w' ∧ (0 < auction.reservePrice ∨ auction.bids ≠ []) ∧
      s.state.world.nfts auction.nftContract auction.tokenId = some this := by
  have effect : Effect env s.state.world .endAuction w' := exec_effect done
  cases effect with
  | @sold _ winner _ stored _ met best held payment =>
    obtain rfl := Option.mem_unique kept.stored stored
    have bid : auction.bids ≠ [] := fun none => by simp [kept.ranked.nil_iff.1 none] at best
    exact ⟨⟨fun _ => ⟨winner, best, rfl, payment⟩, fun unmet => absurd ⟨bid, met⟩ unmet⟩, .inr bid,
      held⟩
  | @unsold _ _ stored _ unmet refunded held =>
    obtain rfl := Option.mem_unique kept.stored stored
    exact ⟨⟨fun met => absurd met.2 (not_le.2 unmet),
      fun _ => ⟨rfl, refund_apply kept.ranked refunded⟩⟩,
      .inl (kept.ranked.nonneg.trans_lt unmet), held⟩

theorem Kept.endAuction_succeeds (kept : Kept actions s auction)
    (unsettled : settlements actions = 0)
    (ended : auction.endLedger ≤ env.sequence)
    (priced : 0 < auction.reservePrice ∨ auction.bids ≠ []) :
    ∃ w', endAuction env s.state.world = .ok w' := by
  obtain ⟨held, -, covered⟩ := kept.standing unsettled
  have nonneg := kept.ranked.nonneg
  refine bind_succeeds (unwrap_ok_iff.2 kept.stored)
    (bind_succeeds ((ensure_ok_iff (u := ())).2 ended) ?_)
  split_ifs with met
  · have bid : auction.bids ≠ [] := by
      intro none
      have zero := kept.ranked.zero none
      rcases priced with positive | some
      · omega
      · exact some none
    obtain ⟨_, best⟩ := Option.ne_none_iff_exists'.1 (bid ∘ kept.ranked.nil_iff.2)
    refine bind_succeeds (unwrap_ok_iff.2 best)
      (bind_succeeds (Nfts.transfer_ok_iff.2 ⟨held, rfl⟩) ?_)
    exact bind_succeeds (Tokens.transfer_ok_iff.2 ⟨nonneg, covered, rfl⟩) ⟨_, rfl⟩
  · have refunds : ∃ t, refund this auction s.state.world.tokens = .ok t := by
      unfold refund
      split_ifs with bid
      · cases best : auction.highestBidder with
        | none => simp [kept.ranked.zero (kept.ranked.nil_iff.2 best)] at bid
        | some => exact ⟨_, Tokens.transfer_ok_iff.2 ⟨bid.le, covered, rfl⟩⟩
      · exact ⟨_, rfl⟩
    obtain ⟨_, refunded⟩ := refunds
    exact bind_succeeds refunded (bind_succeeds (Nfts.transfer_ok_iff.2 ⟨held, rfl⟩) ⟨_, rfl⟩)

/-- After any run of an auction that holds the token on sale: the recorded bids are those that were
made, and the highest is the last one.  Before the settlement the calls have brought the auction
exactly the highest bid, and have taken nothing from anybody but the highest bidder; at the end
ledger a settlement goes through exactly if there is a bid or a positive reserve price, and then
does what it should.  There is one settlement and no more, unless somebody gives the token back to
the auction or it returned the token to a seller that is the auction itself. -/
theorem settled_once {s₀ : Timed (Traced Address)} (opened : Opened this s₀)
    (run : Run (Timed.Step Action.sequence Step) s₀ actions s) :
    ∃ auction, s.state.world.auction = some auction ∧ auction.bids = bidsOf actions ∧
      Ranked auction ∧
      (settlements actions = 0 →
        -s.state.taken auction.paymentToken this = auction.highestBid ∧
        (∀ holder, holder ≠ this →
          s.state.taken auction.paymentToken holder = auction.owed holder) ∧
        ∀ env : Env this, auction.endLedger ≤ env.sequence →
          ((∃ w', endAuction env s.state.world = .ok w') ↔
            0 < auction.reservePrice ∨ auction.bids ≠ []) ∧
          ∀ w', endAuction env s.state.world = .ok w' → Settles this auction s.state.world w') ∧
      (Run (Timed.Step Action.sequence (Guarded NotReturned Step)) s₀ actions s →
        settlements actions ≠ 0 → auction.seller ≠ this ∨ auction.Met →
        settlements actions = 1 ∧
        ∀ (env : Env this) (w' : World Address), endAuction env s.state.world ≠ .ok w') := by
  obtain ⟨auction, kept⟩ := kept_of_run opened run
  refine ⟨auction, kept.stored, kept.recorded, kept.ranked, fun unsettled => ⟨?_, ?_, ?_⟩,
    fun away settled sold => ?_⟩
  · rw [(kept.standing unsettled).taken, if_pos rfl, if_pos rfl, Auction.owed, if_neg kept.outside]
    omega
  · intro holder other
    rw [(kept.standing unsettled).taken, if_pos rfl, if_neg other, sub_zero]
  · intro env ended
    refine ⟨⟨?_, kept.endAuction_succeeds unsettled ended⟩, fun w' done =>
      (kept.settles done).1⟩
    rintro ⟨w', done⟩
    exact (kept.settles done).2.1
  · obtain ⟨_, kept', gone⟩ := gone_of_run opened away
    obtain rfl := Option.mem_unique kept.stored kept'.stored
    obtain ⟨once, absent⟩ := gone settled sold
    exact ⟨once, fun env w' done => absent (kept.settles done).2.2⟩

end Settle

/-! ## Two auctions -/

def signed (ledger : ℕ) (call : Call ℕ) : Action 0 :=
  .call ⟨ledger, fun a => a ≠ 0, zero_unsigned⟩ call

/-- Execute a call and count what it takes; what others do is not executed. -/
def perform (s : Traced ℕ) : Action 0 → Result (Traced ℕ)
  | .call env call => do
    let w ← exec env s.world call
    pure ⟨w, fun token holder =>
      s.taken token holder + (s.world.tokens token holder - w.tokens token holder)⟩
  | .others _ _ _ => .error .trap

theorem perform_step {s s' : Traced ℕ} {action : Action 0} (done : perform s action = .ok s') :
    Guarded NotReturned Step s action s' := by
  cases action with
  | call =>
    simp only [perform, ok_iff] at done
    obtain ⟨w, executed, rfl⟩ := done
    exact ⟨trivial, executed, rfl⟩
  | others => cases done

/-- Seller `1` auctions token `7` of collection `4` for at least `reserve` units of token `5`. -/
def onSale (reserve : ℤ) : Timed (Traced ℕ) where
  state := { world := {
    auction := some {
      seller := 1, nftContract := 4, tokenId := 7, paymentToken := 5, startingPrice := 10
      reservePrice := reserve, endLedger := 100 }
    tokens := fun token holder => if token = 5 ∧ holder ≠ 0 then 1000 else 0
    nfts := fun _ _ => some 0 } }

theorem onSale_opened (reserve : ℤ) : Opened 0 (onSale reserve) where
  initialized :=
    ⟨⟨0, fun a => a ≠ 0, zero_unsigned⟩, ⟨none, _, _⟩, 1, 4, 7, 5, 10, reserve, 100, rfl, rfl⟩
  untouched := rfl
  held := fun _ _ => rfl
  nonneg := fun _ => by simp [onSale]

def atEnd : Env 0 := ⟨100, fun a => a ≠ 0, zero_unsigned⟩

/-- The second bid beats the first and meets the reserve price. -/
def twoBids : List (Action 0) := [signed 3 (.bid 2 10), signed 5 (.bid 3 15)]

theorem performed_run {actions : List (Action 0)} {s s' : Timed (Traced ℕ)}
    (done : actions.foldlM (Timed.perform Action.sequence perform) s = .ok s') :
    Run (Timed.Step Action.sequence (Guarded NotReturned Step)) s actions s' ∧
      Run (Timed.Step Action.sequence Step) s actions s' := by
  have run : Run (Timed.Step Action.sequence (Guarded NotReturned Step)) s actions s' :=
    Run.of_foldlM (fun _ _ _ => Timed.perform_step fun _ _ _ => perform_step) done
  exact ⟨run, run.mono fun _ _ _ h => ⟨h.1, h.2.1, h.2.2.2⟩⟩

theorem twoBids_settled : ∃ s w', Opened 0 (onSale 12) ∧
    Run (Timed.Step Action.sequence Step) (onSale 12) twoBids s ∧
    -s.state.taken 5 0 = 15 ∧ s.state.taken 5 2 = 0 ∧ s.state.taken 5 3 = 15 ∧
    endAuction atEnd s.state.world = .ok w' ∧ w'.nfts 4 7 = some 3 ∧
    ∃ s', Run (Timed.Step Action.sequence Step) (onSale 12)
      (twoBids ++ [signed 100 .endAuction]) s' ∧
      ∀ (env : Env 0) (w'' : World ℕ), endAuction env s'.state.world ≠ .ok w'' := by
  obtain ⟨s, done, now⟩ : ∃ s,
      twoBids.foldlM (Timed.perform Action.sequence perform) (onSale 12) = .ok s ∧
        s.state.world.auction = some {
          seller := 1, nftContract := 4, tokenId := 7, paymentToken := 5, startingPrice := 10
          reservePrice := 12, endLedger := 100, highestBidder := some 3, highestBid := 15
          bids := [⟨2, 10⟩, ⟨3, 15⟩] } := by
    decide +kernel
  obtain ⟨s', done', seller⟩ : ∃ s', (twoBids ++ [signed 100 .endAuction]).foldlM
      (Timed.perform Action.sequence perform) (onSale 12) = .ok s' ∧
        ∃ auction ∈ s'.state.world.auction, auction.seller = 1 := by
    decide +kernel
  obtain ⟨-, run⟩ := performed_run done
  obtain ⟨away, run'⟩ := performed_run done'
  obtain ⟨auction, stored, -, -, unsettled, -⟩ := settled_once (onSale_opened 12) run
  obtain rfl := Option.mem_unique now stored
  obtain ⟨due, owed, settle⟩ := unsettled rfl
  obtain ⟨goes, settles⟩ := settle atEnd (by decide)
  obtain ⟨w', ended⟩ := goes.2 (.inl (by decide))
  obtain ⟨_, best, given, -⟩ := (settles w' ended).sale ⟨by simp, by decide⟩
  obtain rfl := Option.some.inj best
  obtain ⟨auction', stored', -, -, -, once⟩ := settled_once (onSale_opened 12) run'
  obtain ⟨_, same, other⟩ := seller
  obtain rfl := Option.mem_unique stored' same
  have last := (once away (by decide) (.inl (other ▸ by decide))).2
  refine ⟨s, w', onSale_opened 12, run, due, owed 2 (by decide), owed 3 (by decide), ended, ?_, s',
    run', last⟩
  rw [given, Nfts.give_self]

/-- With a reserve price of zero and no bid the auction cannot be settled at any ledger: the token
stays where it is.  With a positive one it can be settled a second time, when the seller has given
the token back. -/
theorem no_bid_no_settlement :
    (Opened 0 (onSale 0) ∧
      ∀ (env : Env 0) (w' : World ℕ), endAuction env (onSale 0).state.world ≠ .ok w') ∧
    Opened 0 (onSale 12) ∧ ∃ (actions : List (Action 0)) (s : Timed (Traced ℕ)),
      Run (Timed.Step Action.sequence Step) (onSale 12) actions s ∧ settlements actions = 2 := by
  refine ⟨⟨onSale_opened 0, fun env w' done => ?_⟩, onSale_opened 12, ?_⟩
  · have effect : Effect env (onSale 0).state.world .endAuction w' := exec_effect done
    cases effect with
    | sold stored _ _ best =>
      obtain rfl := Option.some.inj stored
      cases best
    | unsold stored _ unmet =>
      obtain rfl := Option.some.inj stored
      exact absurd unmet (by decide)
  · let back (t : Traced ℕ) : Nfts ℕ := t.world.nfts.give 4 7 0
    obtain ⟨t, first, t', second⟩ : ∃ t,
        perform (onSale 12).state (signed 100 .endAuction) = .ok t ∧
        ∃ t', perform { t with world := { t.world with nfts := back t } }
          (signed 100 .endAuction) = .ok t' := by
      decide +kernel
    have keeps (collection : ℕ) (id : ℤ) (held : t.world.nfts collection id = some 0) :
        back t collection id = some 0 := by
      unfold back Nfts.give Function.update
      split_ifs <;> simp_all
    have sold : Run (Timed.Step Action.sequence Step) (onSale 12) [signed 100 .endAuction]
        ⟨t, 100⟩ := Run.nil.snoc ⟨Nat.zero_le _, rfl, (perform_step first).2⟩
    have returned : Run (Timed.Step Action.sequence Step) (onSale 12)
        [signed 100 .endAuction, .others 100 t.world.tokens (back t)]
        ⟨{ t with world := { t.world with nfts := back t } }, 100⟩ :=
      sold.snoc ⟨le_rfl, rfl, fun _ => le_rfl, keeps, rfl⟩
    exact ⟨_, ⟨t', 100⟩, returned.snoc ⟨le_rfl, rfl, (perform_step second).2⟩, rfl⟩

end EnglishAuction
