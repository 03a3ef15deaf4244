import HeaderConstants.Proofs.Resolve.Turn

/-!
# The pass limit

With plain names the limit of a run that sets none is exact: a constant is reported as cyclic if and
only if its passes never settle, and passes that settle need no more than one changing pass for
each name. A limit of at least the number of names therefore decides nothing.
-/

namespace HeaderConstants
set_option autoImplicit false

open Resolve

variable {t : Table} {c : Constant} {cs : List Constant}

namespace Resolve

theorem resolveConstant_cyclic_iff {limit : Nat} :
    (∃ origin chain, resolveConstant t limit c = .error (.cyclic origin chain)) ↔
      ∀ k ≤ limit, ¬ Settled t k c.rawValue := by
  rw [← expand?_eq_none_iff]
  simp [resolveConstant_eq_cyclic_iff]

theorem resolveConstant_eq_of_length_le (ht : Enclosing t) {m m' : Nat} (hm : t.length ≤ m)
    (hm' : t.length ≤ m') : resolveConstant t m c = resolveConstant t m' c := by
  rw [resolveConstant, resolveConstant, expand?_eq_of_length_le ht hm,
    expand?_eq_of_length_le ht hm']

end Resolve

namespace Resolver

theorem runFrom_eq_of_length_le {keepUp : Bool} {m m' : Nat} (ht : Enclosing t)
    (hcs : ∀ c ∈ cs, PlainName c.name) (hm : t.length ≤ m) (hm' : t.length ≤ m')
    (stats : ResolutionStats) : runFrom keepUp m t stats cs = runFrom keepUp m' t stats cs := by
  induction cs generalizing t stats with
  | nil => rfl
  | cons c more ih =>
    have hmore := fun d (hd : d ∈ more) => hcs d (List.mem_cons_of_mem c hd)
    have heq := resolveConstant_eq_of_length_le (c := c) ht hm hm'
    cases hres : c.isResolved with
    | true => rw [runFrom_of_isResolved hres, runFrom_of_isResolved hres, ih ht hmore hm hm']
    | false =>
      cases hr : resolveConstant t m' c with
      | error e => rw [runFrom_of_error hres (heq.trans hr), runFrom_of_error hres hr]
      | ok r =>
        have hname : PlainName (c.resolve r.value r.trace).name := hcs c (List.mem_cons_self ..)
        have hlen := length_tableAfter keepUp t (c.resolve r.value r.trace) more
        rw [runFrom_of_ok hres (heq.trans hr), runFrom_of_ok hres hr,
          ih (ht.tableAfter hname keepUp) hmore (by rwa [hlen]) (by rwa [hlen])]

/-- Without a limit of its own a run reports a constant as cyclic exactly when its passes never
settle; those that do settle have at most as many changing passes as there are names; and every
limit from the number of names on gives the same run. -/
theorem standard_limit_exact (r : Resolver) (cs : List Constant) (hmax : r.config.maxPasses = none)
    (hnames : ∀ c ∈ cs, PlainName c.name) :
    (∀ turn ∈ r.turns cs,
      ((∃ origin chain, resolveConstant turn.table (r.limit cs) turn.constant =
          .error (.cyclic origin chain)) ↔
        ∀ k, ¬ Settled turn.table k turn.constant.rawValue) ∧
      ((∃ k, Settled turn.table k turn.constant.rawValue) →
        ∃ k ≤ (cs.map Constant.name).toFinset.card,
          Settled turn.table k turn.constant.rawValue)) ∧
    ∀ m, (cs.map Constant.name).toFinset.card ≤ m →
      run ⟨⟨some m, r.config.parallel⟩, r.stats⟩ cs = run r cs := by
  have hlimit : r.limit cs = (table cs).length + 1 := by
    simp [limit, ResolverConfig.passLimit, hmax]
  refine ⟨fun turn hturn => ?_, fun m hm => ?_⟩
  · have ht := enclosing_of_mem_turns hnames hturn
    have hlen : turn.table.length = (table cs).length := by
      simpa using congrArg List.length (table_of_mem_turns hturn)
    rw [resolveConstant_cyclic_iff, hlimit, ← length_table, ← hlen]
    refine ⟨⟨fun h k hk => ?_, fun h k _ => h k⟩, fun ⟨k, hk⟩ => ?_⟩
    · exact h _ (Nat.le_succ _) (settled_length ht hk)
    · exact ⟨_, Nat.le_refl _, settled_length ht hk⟩
  · rw [← length_table] at hm
    have hconfig : r.config.passLimit (table cs).length = (table cs).length + 1 := hlimit
    simp only [run, hconfig]
    exact runFrom_eq_of_length_le (enclosing_table hnames) hnames hm (Nat.le_succ _) _

/-- Three definitions in a chain, two of them forward, and one that refers to itself. -/
theorem standard_limit_exact_chain :
    let define (name value : String) : Constant := .define name value "" 0 ""
    let cs := [define "B" "C + 1", define "C" "D", define "D" "(1 << 4)", define "E" "E | D"]
    let r : Resolver := .new ⟨none, true⟩
    r.config.maxPasses = none ∧ (∀ c ∈ cs, PlainName c.name) ∧
    (∀ turn ∈ r.turns cs,
      ((∃ origin chain, resolveConstant turn.table (r.limit cs) turn.constant =
          .error (.cyclic origin chain)) ↔
        ∀ k, ¬ Settled turn.table k turn.constant.rawValue) ∧
      ((∃ k, Settled turn.table k turn.constant.rawValue) →
        ∃ k ≤ (cs.map Constant.name).toFinset.card,
          Settled turn.table k turn.constant.rawValue)) ∧
    ∀ m, (cs.map Constant.name).toFinset.card ≤ m →
      run ⟨⟨some m, r.config.parallel⟩, r.stats⟩ cs = run r cs := by
  refine ⟨rfl, by decide, standard_limit_exact _ _ rfl (by decide)⟩

end Resolver

end HeaderConstants
