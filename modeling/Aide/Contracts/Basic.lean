import Mathlib.Algebra.GroupWithZero.Nat
import Mathlib.Data.Fintype.Basic
import Mathlib.Data.Nat.Basic
import Mathlib.Logic.Function.Basic
import Mathlib.Tactic.Common

namespace Aide

abbrev Address := Fin (2 ^ 160)

instance addressSpace_neZero : NeZero (2 ^ 160) := ⟨by decide⟩

abbrev Bytes32 := BitVec 256

def uint256Max : ℕ := 2 ^ 256 - 1

inductive Side
  | buy
  | sell
  deriving DecidableEq

/-- Everything a call can revert with: the arithmetic panic, the errors of the token and of the
access control base contracts, the custom errors of the contracts and their `require` texts. -/
inductive Revert
  | panic
  | erc20InvalidSender | erc20InvalidReceiver | erc20InvalidApprover | erc20InvalidSpender
  | erc20InsufficientBalance | erc20InsufficientAllowance
  | accessControlUnauthorizedAccount | accessControlBadConfirmation
  | ownableUnauthorizedAccount | ownableInvalidOwner
  | zeroAddress | badOrder | insufficientVstk | insufficientAitBalance | notTradable
  | badStatus | notPublisher | notWorker | aiPoolRecipientNotVerified
  | systemPaused | onlyTreasury | onlyInternalMarket | peersAlreadyWired | zeroPeer
  | unauthorizedUnpause | zeroCompanyId
  | badTeeSignature | expiredDeadline | zkPathDeprecated
  | noSuchFunction
  | require (message : String)
  deriving DecidableEq

theorem bind_eq_ok {ε α β : Type} {x : Except ε α} {f : α → Except ε β} {b : β} :
    x >>= f = .ok b ↔ ∃ a, x = .ok a ∧ f a = .ok b := by
  cases x with
  | ok a => simp [bind, Except.bind]
  | error e => simp [bind, Except.bind]

theorem pure_eq_ok {ε α : Type} {a b : α} : (pure a : Except ε α) = .ok b ↔ a = b := by
  simp [pure, Except.pure]

/-- `if (!condition) revert error;` -/
def require (condition : Prop) [Decidable condition] (error : Revert) : Except Revert Unit :=
  if condition then .ok () else .error error

@[simp] theorem require_eq_ok {condition : Prop} [Decidable condition] {error : Revert} {u : Unit} :
    require condition error = .ok u ↔ condition := by
  unfold require
  split <;> simp_all

/-- `require` in a contract with errors of its own. -/
def ensure {ε : Type} (condition : Prop) [Decidable condition] (error : ε) : Except ε Unit :=
  if condition then .ok () else .error error

@[simp] theorem ensure_eq_ok {ε : Type} {condition : Prop} [Decidable condition] {error : ε} {u : Unit} :
    ensure condition error = .ok u ↔ condition := by
  unfold ensure
  split <;> simp_all

@[simp] theorem mapError_eq_ok {ε δ α : Type} {f : ε → δ} {x : Except ε α} {a : α} :
    x.mapError f = .ok a ↔ x = .ok a := by
  cases x <;> simp [Except.mapError]

/-- A `uint256` is a natural number, and the checked operations revert where the result
would leave the range of the type. -/
def checkedAdd (a b : ℕ) : Except Revert ℕ :=
  if a + b ≤ uint256Max then .ok (a + b) else .error .panic

def checkedSub (a b : ℕ) : Except Revert ℕ :=
  if b ≤ a then .ok (a - b) else .error .panic

def checkedMul (a b : ℕ) : Except Revert ℕ :=
  if a * b ≤ uint256Max then .ok (a * b) else .error .panic

@[simp] theorem checkedAdd_eq_ok {a b c : ℕ} :
    checkedAdd a b = .ok c ↔ a + b ≤ uint256Max ∧ c = a + b := by
  unfold checkedAdd
  split <;> simp_all [eq_comm]

@[simp] theorem checkedSub_eq_ok {a b c : ℕ} : checkedSub a b = .ok c ↔ b ≤ a ∧ c = a - b := by
  unfold checkedSub
  split <;> simp_all [eq_comm]

@[simp] theorem checkedMul_eq_ok {a b c : ℕ} :
    checkedMul a b = .ok c ↔ a * b ≤ uint256Max ∧ c = a * b := by
  unfold checkedMul
  split <;> simp_all [eq_comm]

/-- `msg.sender`, `block.timestamp` and `block.chainid` of a call. -/
structure Msg where
  sender : Address
  timestamp : ℕ := 0
  chainId : ℕ := 0

inductive Role
  | defaultAdmin
  | settler | companyAdmin
  | registry | economist | salary | treasuryOps
  | emergencyCommittee
  | verifier
  | auditor
  deriving DecidableEq

/-- The role table of an `AccessControl` contract. No role has an admin role of its own, so
`defaultAdmin` administers all of them. -/
abbrev Roles := Role → Address → Bool

namespace Roles

/-- The modifier `onlyRole`. -/
def only (roles : Roles) (role : Role) (sender : Address) : Except Revert Unit :=
  require (roles role sender) .accessControlUnauthorizedAccount

def set (roles : Roles) (role : Role) (account : Address) (held : Bool) : Roles :=
  Function.update roles role (Function.update (roles role) account held)

/-- The external calls of `AccessControl`. -/
inductive Call
  | grantRole (role : Role) (account : Address)
  | revokeRole (role : Role) (account : Address)
  | renounceRole (role : Role) (callerConfirmation : Address)

def exec (roles : Roles) (sender : Address) : Call → Except Revert Roles
  | .grantRole role account => do
    roles.only .defaultAdmin sender
    pure (roles.set role account true)
  | .revokeRole role account => do
    roles.only .defaultAdmin sender
    pure (roles.set role account false)
  | .renounceRole role callerConfirmation => do
    require (callerConfirmation = sender) .accessControlBadConfirmation
    pure (roles.set role callerConfirmation false)

@[simp] theorem only_eq_ok {roles : Roles} {role : Role} {sender : Address} {u : Unit} :
    roles.only role sender = .ok u ↔ roles role sender = true := require_eq_ok

end Roles

end Aide
