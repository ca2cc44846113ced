/-
The contract of the demo (`demo/nodejs/crowd-funding.sol`).

A call moves its value to the contract and runs the function it names; a revert undoes all of it. The
numbers are 256 bits wide and wrap around, the contract's ether does not. Gas is paid apart from the
values that move here.

* `Tally` — what the log of a contract says: what is held, what was contributed, what was paid.
* `campaign_accounts` — over every run, the amount is what the log says, the contract's ether covers it,
  and only the beneficiary is ever paid.
* `campaign_settles` — in every state that a run reaches, `checkGoalReached` foretells `settle`, which
  pays the whole amount or changes nothing, and a goal that was reached stays reached until it is
  settled.
-/

import EvmBabble.Ethereum.Types
import EvmBabble.Library.Run
import Mathlib.Algebra.Group.Nat.Defs
import Mathlib.Data.List.Induction

namespace EvmBabble.CrowdFunding

open Library

/-! ### The contract -/

/-- `uint`. -/
abbrev Uint := BitVec 256

structure Campaign where
  beneficiary : Address
  fundingGoal : Uint
  numFunders : Uint
  amount : Uint
deriving DecidableEq

inductive Event
  | newContribution (beneficiary funder : Address) (amount : Uint)
  | settlement (ok : Bool)
deriving DecidableEq

/-- The function that the data of a call names, if it names one. -/
inductive Method
  | contribute
  | checkGoalReached
  | settle
  | unknown
deriving DecidableEq

/-- A call: who makes it, what it pays, what it names, whether its gas is enough, and whether the
beneficiary takes a payment that comes with the stipend only. -/
structure Call where
  sender : Address
  value : Uint
  method : Method
  enough : Bool
  taken : Bool
deriving DecidableEq

/-- The results of `checkGoalReached`. -/
structure Checked where
  reached : Bool
  beneficiary : Address
  goal : Uint
  amount : Uint
deriving DecidableEq

/-- How a call ends. -/
inductive Answer
  | reverted
  | returned (checked : Option Checked)
deriving DecidableEq

/-- The contract's storage and log, and everybody's ether. -/
structure Chain where
  campaign : Campaign
  balance : Address → Nat
  log : List Event

/-- Ether that moves. -/
def pay (balance : Address → Nat) (source target : Address) (value : Nat) : Address → Nat :=
  let left := Function.update balance source (balance source - value)
  Function.update left target (left target + value)

/-- The constructor: the sender becomes the beneficiary. -/
def construct (balance : Address → Nat) (sender : Address) (goal : Uint) : Chain where
  campaign := ⟨sender, goal, 0, 0⟩
  balance := balance
  log := []

namespace Chain

variable (this : Address) (chain : Chain)

/-- `contribute`. -/
def contribute (sender : Address) (value : Uint) : Chain :=
  { chain with
    campaign.amount := chain.campaign.amount + value
    log := chain.log ++ [.newContribution chain.campaign.beneficiary sender value] }

/-- `checkGoalReached`. -/
def checkGoalReached : Checked :=
  if chain.campaign.amount < chain.campaign.fundingGoal then
    ⟨false, chain.campaign.beneficiary, chain.campaign.fundingGoal, chain.campaign.amount⟩
  else ⟨true, chain.campaign.beneficiary, chain.campaign.fundingGoal, chain.campaign.amount⟩

/-- `transfer`: it reverts when the contract has not the ether or the target does not take it. -/
def transfer (target : Address) (value : Nat) (taken : Bool) : Option Chain :=
  if chain.balance this < value ∨ taken = false then none
  else some { chain with balance := pay chain.balance this target value }

/-- `settle`. -/
def settle (taken : Bool) : Option Chain :=
  if chain.campaign.fundingGoal ≤ chain.campaign.amount then
    let am := chain.campaign.amount
    let zeroed := { chain with campaign.amount := 0 }
    (zeroed.transfer this zeroed.campaign.beneficiary am.toNat taken).map fun paid =>
      { paid with log := paid.log ++ [.settlement true] }
  else some { chain with log := chain.log ++ [.settlement false] }

/-- The function that a call names: only `contribute` is payable, and there is no fallback. -/
def body (made : Call) : Option (Chain × Option Checked) :=
  match made.method with
  | .contribute => some (chain.contribute made.sender made.value, none)
  | .checkGoalReached => if made.value = 0 then some (chain, some chain.checkGoalReached) else none
  | .settle => if made.value = 0 then (chain.settle this made.taken).map (·, none) else none
  | .unknown => none

/-- A call with its value; a revert leaves the chain as it was. -/
def call (made : Call) : Chain × Answer :=
  if chain.balance made.sender < made.value.toNat ∨ made.enough = false then (chain, .reverted)
  else
    let paid := { chain with balance := pay chain.balance made.sender this made.value.toNat }
    match paid.body this made with
    | none => (chain, .reverted)
    | some (after, checked) => (after, .returned checked)

end Chain

/-- What happens on the chain: a call of the contract, or ether that moves elsewhere; it may be forced
onto the contract, as `selfdestruct` does. -/
inductive Happening
  | call (made : Call)
  | moved (source target : Address) (value : Nat)

def Chain.step (this : Address) (chain : Chain) : Happening → Chain × Answer
  | .call made => chain.call this made
  | .moved source target value =>
    if chain.balance source < value then (chain, .reverted)
    else ({ chain with balance := pay chain.balance source target value }, .returned none)

/-- The contract starts nothing by itself. -/
def Happening.Foreign (this : Address) : Happening → Prop
  | .call made => made.sender ≠ this
  | .moved source _ _ => source ≠ this

instance (this : Address) (happening : Happening) : Decidable (happening.Foreign this) :=
  match happening with
  | .call _ => inferInstanceAs (Decidable (_ ≠ _))
  | .moved _ _ _ => inferInstanceAs (Decidable (_ ≠ _))

/-! ### The log -/

/-- What a log says of a contract: what it holds, what was contributed, what was paid. -/
structure Tally where
  held : Nat
  contributed : Nat
  paid : Nat
deriving DecidableEq

/-- The amount is a `uint`: it starts again at zero. -/
def Tally.take (tally : Tally) : Event → Tally
  | .newContribution _ _ value =>
    { tally with
      held := (tally.held + value.toNat) % 2 ^ 256
      contributed := tally.contributed + value.toNat }
  | .settlement true => { tally with held := 0, paid := tally.paid + tally.held }
  | .settlement false => tally

def tally (log : List Event) : Tally := log.foldl Tally.take ⟨0, 0, 0⟩

theorem tally_concat (log : List Event) (event : Event) :
    tally (log ++ [event]) = (tally log).take event := by
  unfold tally
  rw [List.foldl_append]
  rfl

/-- Nothing is held or paid that was not contributed. -/
theorem tally_le (log : List Event) : (tally log).held + (tally log).paid ≤ (tally log).contributed := by
  induction log using List.reverseRecOn with
  | nil => exact Nat.le_refl 0
  | append_singleton log event ih =>
    rw [tally_concat]
    cases event with
    | newContribution beneficiary funder value =>
      have wrapped := Nat.mod_le ((tally log).held + value.toNat) (2 ^ 256)
      show ((tally log).held + value.toNat) % 2 ^ 256 + (tally log).paid ≤
        (tally log).contributed + value.toNat
      omega
    | settlement ok =>
      cases ok with
      | false => exact ih
      | true =>
        show 0 + ((tally log).paid + (tally log).held) ≤ (tally log).contributed
        omega

/-- While less was contributed than a `uint` holds, all of it is held or paid. -/
theorem tally_exact (log : List Event) (fits : (tally log).contributed < 2 ^ 256) :
    (tally log).held + (tally log).paid = (tally log).contributed := by
  induction log using List.reverseRecOn with
  | nil => rfl
  | append_singleton log event ih =>
    rw [tally_concat] at fits ⊢
    cases event with
    | newContribution beneficiary funder value =>
      change (tally log).contributed + value.toNat < 2 ^ 256 at fits
      have before := ih (by omega)
      have whole : ((tally log).held + value.toNat) % 2 ^ 256 = (tally log).held + value.toNat :=
        Nat.mod_eq_of_lt (by omega)
      show ((tally log).held + value.toNat) % 2 ^ 256 + (tally log).paid =
        (tally log).contributed + value.toNat
      omega
    | settlement ok =>
      cases ok with
      | false => exact ih fits
      | true =>
        have before := ih fits
        show 0 + ((tally log).paid + (tally log).held) = (tally log).contributed
        omega

/-! ### What a call can do -/

section Pay

variable {balance : Address → Nat} {source target : Address} {value : Nat}

theorem pay_zero : pay balance source target 0 = balance := by
  unfold pay
  simp

theorem pay_target (apart : source ≠ target) :
    pay balance source target value target = balance target + value := by
  unfold pay
  rw [Function.update_self, Function.update_of_ne apart.symm]

theorem pay_source (apart : source ≠ target) :
    pay balance source target value source = balance source - value := by
  unfold pay
  rw [Function.update_of_ne apart, Function.update_self]

theorem pay_other {address : Address} (one : address ≠ source) (two : address ≠ target) :
    pay balance source target value address = balance address := by
  unfold pay
  rw [Function.update_of_ne two, Function.update_of_ne one]

/-- Nobody but the target has more. -/
theorem pay_le {address : Address} (apart : address ≠ target) :
    pay balance source target value address ≤ balance address := by
  by_cases same : address = source
  · rw [same, pay_source (same ▸ apart)]
    exact Nat.sub_le _ _
  · exact Nat.le_of_eq (pay_other same apart)

end Pay

namespace Chain

variable (this : Address) (chain : Chain) (made : Call)

/-- The chain after the whole amount was paid. -/
def settled : Chain :=
  { campaign := { chain.campaign with amount := 0 }
    balance := pay chain.balance this chain.campaign.beneficiary chain.campaign.amount.toNat
    log := chain.log ++ [.settlement true] }

/-- The chain after a contribution. -/
def contributed : Chain :=
  { chain with balance := pay chain.balance made.sender this made.value.toNat }.contribute
    made.sender made.value

/-- What a call did, if it was not reverted. -/
inductive Did : Chain × Answer → Prop
  | contribute (named : made.method = .contribute) : Did (chain.contributed this made, .returned none)
  | check (named : made.method = .checkGoalReached) :
      Did (chain, .returned (some chain.checkGoalReached))
  | pay (named : made.method = .settle) (reached : chain.campaign.fundingGoal ≤ chain.campaign.amount)
      (covered : chain.campaign.amount.toNat ≤ chain.balance this) :
      Did (chain.settled this, .returned none)
  | decline (named : made.method = .settle)
      (short : ¬ chain.campaign.fundingGoal ≤ chain.campaign.amount) :
      Did ({ chain with log := chain.log ++ [.settlement false] }, .returned none)

variable {this chain made}

/-- A settlement that is not reverted. -/
theorem settle_cases {after : Chain} (done : chain.settle this made.taken = some after)
    (named : made.method = .settle) : Did this chain made (after, .returned none) := by
  unfold settle at done
  split at done
  · next reached =>
    obtain ⟨paid, moved, rfl⟩ := Option.map_eq_some_iff.mp done
    unfold transfer at moved
    split at moved
    · cases moved
    · next able =>
      cases moved
      exact .pay named reached (Nat.le_of_not_lt fun short => able (Or.inl short))
  · next short =>
    cases done
    exact .decline named short

variable (this chain made) in
/-- **A call is reverted**, or it did what its function does. -/
theorem call_cases : chain.call this made = (chain, .reverted) ∨
    Did this chain made (chain.call this made) := by
  have free : made.value = 0 →
      { chain with balance := pay chain.balance made.sender this made.value.toNat } = chain :=
    fun zero => by
      have none : made.value.toNat = 0 := by rw [zero]; rfl
      rw [none, pay_zero]
  unfold call
  split
  · exact Or.inl rfl
  · dsimp only
    cases done : body this _ made with
    | none => exact Or.inl rfl
    | some result =>
      right
      unfold body at done
      split at done
      · next named =>
        cases done
        exact .contribute named
      · next named =>
        split at done
        · next zero =>
          rw [free zero] at done
          cases done
          exact .check named
        · cases done
      · next named =>
        split at done
        · next zero =>
          rw [free zero] at done
          obtain ⟨after, settles, rfl⟩ := Option.map_eq_some_iff.mp done
          exact settle_cases settles named
        · cases done
      · cases done

end Chain

/-! ### What every run keeps -/

/-- What a contract keeps: its campaign is the one that was made, its amount is what the log says, and
the ether that came to it is there or was paid. -/
structure Kept (this owner : Address) (goal : Uint) (initial : Nat) (chain : Chain) : Prop where
  campaign : chain.campaign = ⟨owner, goal, 0, chain.campaign.amount⟩
  amount : chain.campaign.amount.toNat = (tally chain.log).held
  ether : initial + (tally chain.log).contributed ≤ chain.balance this + (tally chain.log).paid

section Kept

variable {this owner : Address} {goal : Uint} {initial : Nat} {chain : Chain}

theorem kept_construct (balance : Address → Nat) :
    Kept this owner goal (balance this) (construct balance owner goal) :=
  ⟨rfl, rfl, Nat.le_refl _⟩

/-- The ether of the contract covers its amount. -/
theorem Kept.covered (kept : Kept this owner goal initial chain) :
    initial + chain.campaign.amount.toNat ≤ chain.balance this := by
  obtain ⟨-, amount, ether⟩ := kept
  have within := tally_le chain.log
  omega

theorem kept_did {made : Call} {result : Chain × Answer} (kept : Kept this owner goal initial chain)
    (apart : owner ≠ this) (foreign : made.sender ≠ this) (did : chain.Did this made result) :
    Kept this owner goal initial result.1 := by
  have covered := kept.covered
  obtain ⟨campaign, amount, ether⟩ := kept
  have beneficiary : chain.campaign.beneficiary = owner := by rw [campaign]
  cases did with
  | contribute named =>
    have logged := tally_concat chain.log
      (.newContribution chain.campaign.beneficiary made.sender made.value)
    refine ⟨?_, ?_, ?_⟩
    · exact congrArg (fun campaign : Campaign =>
        { campaign with amount := chain.campaign.amount + made.value }) campaign
    · show (chain.campaign.amount + made.value).toNat = (tally (_ ++ [_])).held
      rw [logged, BitVec.toNat_add, amount]
      rfl
    · show _ + (tally (_ ++ [_])).contributed ≤
        pay chain.balance made.sender this made.value.toNat this + (tally (_ ++ [_])).paid
      rw [logged, pay_target foreign]
      show _ + ((tally chain.log).contributed + made.value.toNat) ≤
        chain.balance this + made.value.toNat + (tally chain.log).paid
      omega
  | check named => exact ⟨campaign, amount, ether⟩
  | pay named reached enough =>
    have logged := tally_concat chain.log (.settlement true)
    refine ⟨?_, ?_, ?_⟩
    · exact congrArg (fun campaign : Campaign => { campaign with amount := 0 }) campaign
    · show (0 : Uint).toNat = (tally (_ ++ [_])).held
      rw [logged]
      rfl
    · show _ + (tally (_ ++ [_])).contributed ≤ pay chain.balance this chain.campaign.beneficiary
        chain.campaign.amount.toNat this + (tally (_ ++ [_])).paid
      rw [logged, beneficiary, pay_source apart.symm]
      show _ + (tally chain.log).contributed ≤ chain.balance this - chain.campaign.amount.toNat +
        ((tally chain.log).paid + (tally chain.log).held)
      omega
  | decline named short =>
    have logged := tally_concat chain.log (.settlement false)
    refine ⟨campaign, ?_, ?_⟩
    · show chain.campaign.amount.toNat = (tally (_ ++ [_])).held
      rw [logged]
      exact amount
    · show _ + (tally (_ ++ [_])).contributed ≤ chain.balance this + (tally (_ ++ [_])).paid
      rw [logged]
      exact ether

/-- **Every happening keeps the contract.** -/
theorem kept_step (kept : Kept this owner goal initial chain) (apart : owner ≠ this)
    {happening : Happening} (foreign : happening.Foreign this) :
    Kept this owner goal initial (chain.step this happening).1 := by
  cases happening with
  | call made =>
    rcases Chain.call_cases this chain made with same | did
    · rw [Chain.step, same]
      exact kept
    · exact kept_did kept apart foreign did
  | moved source target value =>
    unfold Chain.step
    dsimp only
    split
    · exact kept
    · obtain ⟨campaign, amount, ether⟩ := kept
      refine ⟨campaign, amount, Nat.le_trans ether (Nat.add_le_add_right ?_ _)⟩
      show chain.balance this ≤ pay chain.balance source target value this
      by_cases same : target = this
      · rw [same, pay_target foreign]
        exact Nat.le_add_right _ _
      · exact Nat.le_of_eq
          (pay_other (fun here => foreign here.symm) (fun here => same here.symm)).symm

theorem kept_run (apart : owner ≠ this) (balance : Address → Nat) {happenings : List Happening}
    (foreign : ∀ happening ∈ happenings, happening.Foreign this) :
    Kept this owner goal (balance this)
      (run (Chain.step this) (construct balance owner goal) happenings).1 :=
  run_invariant (Chain.step this) (Kept this owner goal (balance this))
    (fun _ _ kept foreign => kept_step kept apart foreign) (kept_construct balance)
    (along_allowed _ foreign)

end Kept

/-! ### The accounts of a campaign -/

/-- What the accounts of a campaign come to: its terms stand, its amount is what its log says and is
covered by its ether, and nothing that came in is lost before a `uint` is full. -/
structure Accounts (this owner : Address) (goal : Uint) (initial : Nat) (chain : Chain) : Prop where
  terms : chain.campaign.beneficiary = owner ∧ chain.campaign.fundingGoal = goal ∧
    chain.campaign.numFunders = 0
  amount : chain.campaign.amount.toNat = (tally chain.log).held
  covered : initial + chain.campaign.amount.toNat ≤ chain.balance this
  within : chain.campaign.amount.toNat + (tally chain.log).paid ≤ (tally chain.log).contributed
  whole : (tally chain.log).contributed < 2 ^ 256 →
    chain.campaign.amount.toNat + (tally chain.log).paid = (tally chain.log).contributed

/-- A call makes nobody richer but the owner, by all of the amount and in a settlement whose goal was
reached. -/
def PaysOwner (this owner : Address) (chain : Chain) : Happening → Prop
  | .call made => ∀ address, address ≠ this →
      chain.balance address < (chain.call this made).1.balance address →
        address = owner ∧ made.method = .settle ∧
          chain.campaign.fundingGoal ≤ chain.campaign.amount ∧
          (chain.call this made).1.balance address =
            chain.balance address + chain.campaign.amount.toNat
  | .moved _ _ _ => True

section Accounts

variable {this owner : Address} {goal : Uint} {initial : Nat} {chain : Chain}

theorem Kept.accounts (kept : Kept this owner goal initial chain) :
    Accounts this owner goal initial chain where
  terms := by rw [kept.campaign]; exact ⟨rfl, rfl, rfl⟩
  amount := kept.amount
  covered := kept.covered
  within := by rw [kept.amount]; exact tally_le chain.log
  whole fits := by rw [kept.amount]; exact tally_exact chain.log fits

theorem did_pays {made : Call} {result : Chain × Answer} (did : chain.Did this made result)
    {address : Address} (apart : address ≠ this)
    (richer : chain.balance address < result.1.balance address) :
    address = chain.campaign.beneficiary ∧ made.method = .settle ∧
      chain.campaign.fundingGoal ≤ chain.campaign.amount ∧
      result.1.balance address = chain.balance address + chain.campaign.amount.toNat := by
  cases did with
  | contribute named =>
    have poorer : pay chain.balance made.sender this made.value.toNat address ≤
      chain.balance address := pay_le apart
    exact absurd richer (Nat.not_lt.mpr poorer)
  | check named => exact absurd richer (Nat.lt_irrefl _)
  | pay named reached covered =>
    by_cases same : address = chain.campaign.beneficiary
    · refine ⟨same, named, reached, ?_⟩
      rw [same]
      exact pay_target fun here => apart (same.trans here.symm)
    · have kept : pay chain.balance this chain.campaign.beneficiary chain.campaign.amount.toNat address =
          chain.balance address := pay_other apart same
      exact absurd richer (Nat.not_lt.mpr (Nat.le_of_eq kept))
  | decline named short => exact absurd richer (Nat.lt_irrefl _)

theorem pays_owner (kept : Kept this owner goal initial chain) (happening : Happening) :
    PaysOwner this owner chain happening := by
  cases happening with
  | call made =>
    intro address apart richer
    rcases Chain.call_cases this chain made with same | did
    · rw [same] at richer
      exact absurd richer (Nat.lt_irrefl _)
    · obtain ⟨beneficiary, paid⟩ := did_pays did apart richer
      rw [kept.accounts.terms.1] at beneficiary
      exact ⟨beneficiary, paid⟩
  | moved source target value => trivial

/-- **The accounts of a campaign**, in every run of calls by others. -/
theorem campaign_accounts (apart : owner ≠ this) (goal : Uint) (balance : Address → Nat)
    {happenings : List Happening}
    (foreign : ∀ happening ∈ happenings, happening.Foreign this) :
    Accounts this owner goal (balance this)
        (run (Chain.step this) (construct balance owner goal) happenings).1 ∧
      Along (Chain.step this) (PaysOwner this owner) (construct balance owner goal) happenings :=
  ⟨(kept_run apart balance foreign).accounts,
    along_invariant (Chain.step this) (Kept this owner goal (balance this))
      (fun _ happening kept allowed => ⟨pays_owner kept happening, kept_step kept apart allowed⟩)
      (kept_construct balance) (along_allowed _ foreign)⟩

end Accounts

/-! ### Settlements -/

/-- A call of a function that is not payable, with enough gas. -/
def plainCall (sender : Address) (method : Method) (taken : Bool) : Call :=
  ⟨sender, 0, method, true, taken⟩

/-- What a settlement comes to: `checkGoalReached` foretells it, whoever asks; it pays all or changes
nothing, as the owner takes the payment or not, and a goal that was reached stays reached until then. -/
structure Settles (this owner : Address) (chain : Chain) : Prop where
  foretold : ∀ sender taken, chain.call this (plainCall sender .checkGoalReached taken) =
    (chain, .returned (some chain.checkGoalReached))
  pays : chain.checkGoalReached.reached = true → ∀ sender,
    ∃ after, chain.call this (plainCall sender .settle true) = (after, .returned none) ∧
      after.log = chain.log ++ [.settlement true] ∧ after.campaign.amount = 0 ∧
      after.balance owner = chain.balance owner + chain.campaign.amount.toNat ∧
      after.balance this + chain.campaign.amount.toNat = chain.balance this
  refused : chain.checkGoalReached.reached = true → ∀ sender,
    chain.call this (plainCall sender .settle false) = (chain, .reverted)
  declined : chain.checkGoalReached.reached = false → ∀ sender taken,
    chain.call this (plainCall sender .settle taken) =
      ({ chain with log := chain.log ++ [.settlement false] }, .returned none)
  stays : chain.checkGoalReached.reached = true → ∀ later,
    (∀ happening ∈ later, happening.Foreign this) →
    (tally (run (Chain.step this) chain later).1.log).contributed < 2 ^ 256 →
    (tally (run (Chain.step this) chain later).1.log).paid = (tally chain.log).paid →
      (run (Chain.step this) chain later).1.checkGoalReached.reached = true

section Settlements

variable {this owner : Address} {goal : Uint} {initial : Nat} {chain : Chain}

theorem reached_iff : chain.checkGoalReached.reached = true ↔
    chain.campaign.fundingGoal ≤ chain.campaign.amount := by
  unfold Chain.checkGoalReached
  split
  · next short => exact iff_of_false nofun (BitVec.not_le.mpr short)
  · next enough => exact iff_of_true rfl (BitVec.not_lt.mp enough)

/-- A plain call is its function. -/
theorem call_plain (sender : Address) (method : Method) (taken : Bool) :
    chain.call this (plainCall sender method taken) =
      match chain.body this (plainCall sender method taken) with
      | none => (chain, .reverted)
      | some (after, checked) => (after, .returned checked) := by
  have free : pay chain.balance sender this (0 : Uint).toNat = chain.balance := pay_zero
  unfold Chain.call
  rw [if_neg (by rintro (short | short); exacts [Nat.not_lt_zero _ short, nomatch short])]
  dsimp only [plainCall]
  rw [free]

/-- A plain settlement. -/
theorem call_settle (sender : Address) (taken : Bool) :
    chain.call this (plainCall sender .settle taken) =
      match chain.settle this taken with
      | none => (chain, .reverted)
      | some after => (after, .returned none) := by
  have named : chain.body this (plainCall sender .settle taken) =
      (chain.settle this taken).map (·, none) := by
    show (if (0 : Uint) = 0 then (chain.settle this taken).map (·, none) else none) = _
    exact if_pos rfl
  rw [call_plain, named]
  cases chain.settle this taken with
  | none => rfl
  | some after => rfl

theorem did_log {made : Call} {result : Chain × Answer} (did : chain.Did this made result) :
    chain.log <+: result.1.log := by
  cases did with
  | contribute named => exact List.prefix_append _ _
  | check named => exact List.prefix_refl _
  | pay named reached covered => exact List.prefix_append _ _
  | decline named short => exact List.prefix_append _ _

/-- A log only grows. -/
theorem log_step (happening : Happening) : chain.log <+: (chain.step this happening).1.log := by
  cases happening with
  | call made =>
    rcases Chain.call_cases this chain made with same | did
    · have kept : (chain.step this (.call made)).1.log = chain.log := by rw [Chain.step, same]
      exact kept ▸ List.prefix_refl _
    · exact did_log did
  | moved source target value =>
    unfold Chain.step
    dsimp only
    split
    · exact List.prefix_refl _
    · exact List.prefix_refl _

/-- A longer log says no less was contributed. -/
theorem tally_grows {before after : List Event} (longer : before <+: after) :
    (tally before).contributed ≤ (tally after).contributed := by
  obtain ⟨more, rfl⟩ := longer
  induction more using List.reverseRecOn with
  | nil =>
    exact Nat.le_of_eq (by rw [List.append_nil])
  | append_singleton more event ih =>
    rw [← List.append_assoc, tally_concat]
    apply Nat.le_trans ih
    cases event with
    | newContribution beneficiary funder value => exact Nat.le_add_right _ _
    | settlement ok => cases ok <;> exact Nat.le_refl _

theorem Kept.stays (kept : Kept this owner goal initial chain) (apart : owner ≠ this)
    (reached : chain.checkGoalReached.reached = true) {later : List Happening}
    (foreign : ∀ happening ∈ later, happening.Foreign this)
    (fits : (tally (run (Chain.step this) chain later).1.log).contributed < 2 ^ 256)
    (unpaid : (tally (run (Chain.step this) chain later).1.log).paid = (tally chain.log).paid) :
    (run (Chain.step this) chain later).1.checkGoalReached.reached = true := by
  have after : Kept this owner goal initial (run (Chain.step this) chain later).1 :=
    run_invariant (Chain.step this) (Kept this owner goal initial)
      (fun _ _ kept allowed => kept_step kept apart allowed) kept (along_allowed _ foreign)
  have longer : chain.log <+: (run (Chain.step this) chain later).1.log :=
    run_preserves (Chain.step this) (fun reached => chain.log <+: reached.log)
      (fun _ happening grown => grown.trans (log_step happening)) (List.prefix_refl _) later
  have grows := tally_grows longer
  have before := kept.accounts.whole (Nat.lt_of_le_of_lt grows fits)
  have now := after.accounts.whole fits
  rw [reached_iff, BitVec.le_def, kept.accounts.terms.2.1] at reached
  rw [reached_iff, BitVec.le_def, after.accounts.terms.2.1]
  omega

theorem Kept.settles (kept : Kept this owner goal initial chain) (apart : owner ≠ this) :
    Settles this owner chain := by
  have beneficiary : chain.campaign.beneficiary = owner := kept.accounts.terms.1
  have covered : chain.campaign.amount.toNat ≤ chain.balance this :=
    Nat.le_trans (Nat.le_add_left _ _) kept.covered
  constructor
  case foretold =>
    intro sender taken
    rw [call_plain]
    rfl
  case pays =>
    intro reached sender
    have done : chain.settle this true = some (chain.settled this) := by
      unfold Chain.settle Chain.transfer
      rw [if_pos (reached_iff.mp reached)]
      dsimp only
      rw [if_neg (by rintro (short | short); exacts [absurd covered (Nat.not_le.mpr short), nomatch short])]
      rfl
    refine ⟨chain.settled this, ?_, rfl, rfl, ?_, ?_⟩
    · rw [call_settle, done]
    · show pay _ this chain.campaign.beneficiary _ owner = _
      rw [beneficiary]
      exact pay_target apart.symm
    · show pay _ this chain.campaign.beneficiary _ this + _ = _
      rw [beneficiary, pay_source apart.symm]
      exact Nat.sub_add_cancel covered
  case refused =>
    intro reached sender
    have refuses : chain.settle this false = none := by
      unfold Chain.settle Chain.transfer
      rw [if_pos (reached_iff.mp reached)]
      dsimp only
      rw [if_pos (Or.inr rfl)]
      rfl
    rw [call_settle, refuses]
  case declined =>
    intro short sender taken
    have declines : chain.settle this taken =
        some { chain with log := chain.log ++ [.settlement false] } := by
      unfold Chain.settle
      rw [if_neg fun enough => Bool.false_ne_true (short.symm.trans (reached_iff.mpr enough))]
    rw [call_settle, declines]
  case stays => exact fun reached _ foreign fits unpaid => kept.stays apart reached foreign fits unpaid

/-- **What a settlement comes to** in every state that a run of calls by others reaches. -/
theorem campaign_settles (apart : owner ≠ this) (goal : Uint) (balance : Address → Nat)
    {happenings : List Happening}
    (foreign : ∀ happening ∈ happenings, happening.Foreign this) :
    Settles this owner (run (Chain.step this) (construct balance owner goal) happenings).1 :=
  (kept_run apart balance foreign).settles apart

end Settlements

/-! ### The campaign of the demo -/

namespace Demo

def node (number : UInt8) : Address := .ofBytes 20 [number]

/-- The contract of the demo. -/
def deployed : Address := .ofBytes 20 [9]

/-- Everybody has 1000 wei. -/
def balance (_ : Address) : Nat := 1000

/-- A contribution. -/
def gives (number : UInt8) (value : Uint) : Happening := .call ⟨node number, value, .contribute, true, true⟩

/-- The steps 6 to 11 of the demo, with an attempt to settle early and ether forced onto the contract:
1000 wei are asked for, and come from the nodes 2 and 3. -/
def steps : List Happening :=
  [gives 2 499, .call (plainCall (node 1) .checkGoalReached true),
    .call (plainCall (node 3) .settle true), .moved (node 4) deployed 3, gives 3 501,
    .call (plainCall (node 1) .checkGoalReached true)]

theorem steps_foreign : ∀ happening ∈ steps, happening.Foreign deployed := by decide

theorem steps_accounts : Accounts deployed (node 1) 1000 (balance deployed)
      (run (Chain.step deployed) (construct balance (node 1) 1000) steps).1 ∧
    Along (Chain.step deployed) (PaysOwner deployed (node 1)) (construct balance (node 1) 1000) steps :=
  campaign_accounts (by decide) 1000 balance steps_foreign

theorem steps_settle :
    Settles deployed (node 1) (run (Chain.step deployed) (construct balance (node 1) 1000) steps).1 :=
  campaign_settles (by decide) 1000 balance steps_foreign

/-- The goal is reached, and settling pays node 1. -/
example : (run (Chain.step deployed) (construct balance (node 1) 1000)
    (steps ++ [.call (plainCall (node 1) .settle true)])).1.balance (node 1) = 2000 := by
  decide +kernel

end Demo

end EvmBabble.CrowdFunding
