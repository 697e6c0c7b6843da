import Perigee.Soroban.Nfts
import Perigee.Soroban.Timed
import Perigee.Soroban.Tokens

/-!
# The English auction

A seller auctions one non-fungible token.  Each bid must beat the one before it; the auction takes
the new bid and pays the old one back.  The file follows `contracts/english_auction/src/lib.rs`;
every failed check of the contract is a panic.  The storage keys that `initialize` writes are there
together or not at all, so they are the fields of one record.
-/

namespace EnglishAuction

open Soroban

structure Bid (Address : Type) where
  bidder : Address
  amount : ℤ
  deriving DecidableEq

structure Auction (Address : Type) where
  seller : Address
  nftContract : Address
  tokenId : ℤ
  paymentToken : Address
  startingPrice : ℤ
  reservePrice : ℤ
  endLedger : ℕ
  /-- `initialize` does not write this key. -/
  highestBidder : Option Address := none
  highestBid : ℤ := 0
  bids : List (Bid Address) := []
  deriving DecidableEq

structure World (Address : Type) where
  auction : Option (Auction Address) := none
  tokens : Tokens Address
  nfts : Nfts Address

/-- There are no error codes. -/
abbrev Result (α : Type) := Outcome Empty α

section Contract

variable {Address : Type} [DecidableEq Address] {this : Address}

def initializeAuction (env : Env this) (seller nftContract : Address) (tokenId : ℤ)
    (paymentToken : Address) (startingPrice reservePrice : ℤ) (durationLedgers : ℕ)
    (w : World Address) : Result (World Address) := do
  ensure (w.auction = none)
  let endLedger ← u32 (env.sequence + durationLedgers)
  pure { w with auction := some {
    seller, nftContract, tokenId, paymentToken, startingPrice, reservePrice, endLedger } }

/-- Pay the highest bid back to the highest bidder; a highest bid of `0` stands for no bid. -/
def refund (this : Address) (auction : Auction Address) (tokens : Tokens Address) :
    Result (Tokens Address) :=
  if 0 < auction.highestBid then do
    let highestBidder ← unwrap auction.highestBidder
    tokens.transfer auction.paymentToken this highestBidder auction.highestBid
  else pure tokens

def bid (env : Env this) (bidder : Address) (amount : ℤ) (w : World Address) :
    Result (World Address) := do
  requireAuth env bidder
  let auction ← unwrap w.auction
  ensure (env.sequence < auction.endLedger)
  ensure (auction.startingPrice ≤ amount)
  ensure (auction.highestBid < amount)
  let paid ← w.tokens.transfer auction.paymentToken bidder this amount
  let tokens ← refund this auction paid
  pure { w with
    tokens
    auction := some { auction with
      highestBidder := some bidder
      highestBid := amount
      bids := auction.bids ++ [⟨bidder, amount⟩] } }

def endAuction (env : Env this) (w : World Address) : Result (World Address) := do
  let auction ← unwrap w.auction
  ensure (auction.endLedger ≤ env.sequence)
  if auction.reservePrice ≤ auction.highestBid then do
    let highestBidder ← unwrap auction.highestBidder
    let nfts ← w.nfts.transfer auction.nftContract this highestBidder auction.tokenId
    let tokens ← w.tokens.transfer auction.paymentToken this auction.seller auction.highestBid
    pure { w with nfts, tokens }
  else do
    let tokens ← refund this auction w.tokens
    let nfts ← w.nfts.transfer auction.nftContract this auction.seller auction.tokenId
    pure { w with nfts, tokens }

/-! ## Runs -/

inductive Call (Address : Type) where
  | initializeAuction (seller nftContract : Address) (tokenId : ℤ) (paymentToken : Address)
      (startingPrice reservePrice : ℤ) (durationLedgers : ℕ)
  | bid (bidder : Address) (amount : ℤ)
  | endAuction

def exec (env : Env this) (w : World Address) : Call Address → Result (World Address)
  | .initializeAuction seller nftContract tokenId paymentToken startingPrice reservePrice
      durationLedgers =>
    initializeAuction env seller nftContract tokenId paymentToken startingPrice reservePrice
      durationLedgers w
  | .bid bidder amount => bid env bidder amount w
  | .endAuction => endAuction env w

inductive Action (this : Address) where
  | call (env : Env this) (call : Call Address)
  | others (sequence : ℕ) (tokens : Tokens Address) (nfts : Nfts Address)

def Action.sequence : Action this → ℕ
  | .call env _ => env.sequence
  | .others sequence _ _ => sequence

def Action.isSettlement : Action this → Bool
  | .call _ .endAuction => true
  | _ => false

/-- The world, with what the calls of the auction have taken from every account so far: a payment
counts as taken, a refund as given back. -/
structure Traced (Address : Type) where
  world : World Address
  taken : Tokens Address := fun _ _ => 0

/-- Others can give tokens of both kinds to the auction but not take any from it. -/
def Step (s : Traced Address) (action : Action this) (s' : Traced Address) : Prop :=
  match action with
  | .call env call => exec env s.world call = .ok s'.world ∧
      s'.taken = fun token holder =>
        s.taken token holder + (s.world.tokens token holder - s'.world.tokens token holder)
  | .others _ tokens nfts => (∀ token, s.world.tokens token this ≤ tokens token this) ∧
      (∀ collection id, s.world.nfts collection id = some this → nfts collection id = some this) ∧
      s' = { s with world := { s.world with tokens, nfts } }

/-- An auction right after its initialization, which holds the token on sale.  Its balances are not
negative. -/
structure Opened (this : Address) (s : Timed (Traced Address)) : Prop where
  initialized : ∃ (env : Env this) (w : World Address) (seller nftContract : Address) (tokenId : ℤ)
    (paymentToken : Address) (startingPrice reservePrice : ℤ) (durationLedgers : ℕ),
    initializeAuction env seller nftContract tokenId paymentToken startingPrice reservePrice
      durationLedgers w = .ok s.state.world ∧ s.now = env.sequence
  untouched : s.state.taken = fun _ _ => 0
  held : ∀ auction, s.state.world.auction = some auction →
    s.state.world.nfts auction.nftContract auction.tokenId = some this
  nonneg : ∀ token, 0 ≤ s.state.world.tokens token this

end Contract

end EnglishAuction
