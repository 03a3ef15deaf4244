import HeaderConstants.Constant.Set

/-!
# The allowlist

Only constants whose name starts as the allowlist says are taken up. A selection goes through
batches of constants; it keeps the last definition of each allowed name of a batch and counts what
it kept, ignored and superseded over all batches.

* `Allowlist.pkcs11`: the name starts of the token interface;
* `Selection.select`: one batch.
-/

namespace HeaderConstants
set_option autoImplicit false

structure Allowlist where
  prefixes : List Text
  deriving DecidableEq, Repr

namespace Allowlist

def pkcs11 : Allowlist :=
  ⟨["CKA_", "CKC_", "CKD_", "CKF_", "CKG_", "CKH_", "CKK_", "CKM_", "CKN_", "CKO_", "CKP_", "CKR_",
    "CKS_", "CKT_", "CKU_", "CKZ_", "NSSCK_", "SFTK_"]⟩

def allows (a : Allowlist) (name : Text) : Bool :=
  a.prefixes.any (fun start => name.startsWith start)

end Allowlist

structure SelectionStats where
  kept : Nat
  ignored : Nat
  superseded : Nat
  deriving DecidableEq, Repr

structure Selection where
  allowlist : Allowlist
  stats : SelectionStats
  deriving DecidableEq, Repr

namespace Selection

def new (a : Allowlist) : Selection := ⟨a, ⟨0, 0, 0⟩⟩

/-- Takes up one constant of a batch. -/
def offer (state : Selection × ConstantSet) (c : Constant) : Selection × ConstantSet :=
  let (sel, set) := state
  if sel.allowlist.allows c.name then
    let (set', previous) := set.insert c
    let superseded := sel.stats.superseded + previous.toList.length
    ({ sel with stats := { sel.stats with superseded := superseded } }, set')
  else
    ({ sel with stats := { sel.stats with ignored := sel.stats.ignored + 1 } }, set)

def select (sel : Selection) (batch : List Constant) : Selection × ConstantSet :=
  let (sel', set) := batch.foldl offer (sel, .empty)
  ({ sel' with stats := { sel'.stats with kept := sel'.stats.kept + set.size } }, set)

end Selection

end HeaderConstants
