import Aide.Contracts.Basic
import Mathlib.Logic.Function.Basic

namespace Aide.Engine

def saturatingAdd (a b : ℕ) : ℕ := min (a + b) uint256Max

def saturatingSub (a b : ℕ) : ℕ := a - b

theorem saturatingAdd_min (a b : ℕ) : saturatingAdd (min uint256Max a) b = min uint256Max (a + b) := by
  unfold saturatingAdd
  omega

section Map
variable {K : Type} [DecidableEq K]

/-- `let mut e = map.entry(key).or_insert(0); *e = change(*e)`. -/
def entry (map : K → Option ℕ) (key : K) (change : ℕ → ℕ) : K → Option ℕ :=
  Function.update map key (some (change ((map key).getD 0)))

/-- A missing entry reads as zero. -/
def read (map : K → Option ℕ) (key : K) : ℕ := (map key).getD 0

theorem read_entry (map : K → Option ℕ) (key : K) (change : ℕ → ℕ) :
    read (entry map key change) = Function.update (read map) key (change (read map key)) := by
  funext other
  by_cases same : other = key
  · subst same
    simp [read, entry]
  · simp [read, entry, same]

end Map

/-- The shadow of the market's balances that the engine keeps. -/
structure SyncCoordinator where
  localAit : Address → Option ℕ
  localVstk : ℕ × Address → Option ℕ

namespace SyncCoordinator

def new : SyncCoordinator := ⟨fun _ => none, fun _ => none⟩

def applyFillShadow (sync : SyncCoordinator) (companyId : ℕ) (buyer seller : Address)
    (vstk ait : ℕ) : SyncCoordinator where
  localAit := entry (entry sync.localAit buyer (saturatingSub · ait)) seller (saturatingAdd · ait)
  localVstk := entry (entry sync.localVstk (companyId, seller) (saturatingSub · vstk))
    (companyId, buyer) (saturatingAdd · vstk)

def ait (sync : SyncCoordinator) : Address → ℕ := read sync.localAit

def vstk (sync : SyncCoordinator) : ℕ × Address → ℕ := read sync.localVstk

variable (sync : SyncCoordinator) (companyId : ℕ) (buyer seller : Address) (vstkAmount amount : ℕ)

theorem ait_applyFillShadow :
    (sync.applyFillShadow companyId buyer seller vstkAmount amount).ait =
      Function.update (Function.update sync.ait buyer (sync.ait buyer - amount)) seller
        (saturatingAdd (Function.update sync.ait buyer (sync.ait buyer - amount) seller) amount) := by
  simp only [ait, applyFillShadow, read_entry, saturatingSub]

theorem vstk_applyFillShadow :
    (sync.applyFillShadow companyId buyer seller vstkAmount amount).vstk =
      Function.update (Function.update sync.vstk (companyId, seller)
        (sync.vstk (companyId, seller) - vstkAmount)) (companyId, buyer)
        (saturatingAdd (Function.update sync.vstk (companyId, seller)
          (sync.vstk (companyId, seller) - vstkAmount) (companyId, buyer)) vstkAmount) := by
  simp only [vstk, applyFillShadow, read_entry, saturatingSub]

end SyncCoordinator

end Aide.Engine
