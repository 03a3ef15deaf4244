import HeaderConstants.Host.Session
import HeaderConstants.Proofs.Result
import HeaderConstants.Proofs.Text.Line

/-!
# Places on a disk

A path is followed through directories, and where it leads depends on what is at the places on its
trail only. Two disks that have the same there cannot be told apart through the path, so what is
done in one directory is not seen through the paths that keep away from it.

* `Disk.trail`: the places that a path goes through, with its end;
* `Disk.read_of_write`: a file that was written;
* `Disk.Untouched`: nothing has changed as far as a path can tell;
* `Disk.Within`, `Disk.Within.untouched`: changes in one directory;
* `Disk.locate_absolute`: the place of a path without dots.
-/

namespace HeaderConstants
set_option autoImplicit false

namespace Disk

open Text

variable {d d' d'' : Disk} {p q place : Path} {part name : Text} {more : List Text} {path : Text}
  {n : Node} {content : Bytes} {only : Bool}

/-! ## Nodes -/

theorem node?_root (d : Disk) : d.node? [] = some .directory := rfl

theorem node?_of_ne_nil (d : Disk) (hq : q ≠ []) :
    d.node? q = (d.nodes.find? (fun entry => entry.1 = q)).map Prod.snd := by
  rw [node?, if_neg (by simpa using hq)]

theorem node?_eq_none_of_forall (hplace : place ≠ [])
    (h : ∀ entry ∈ d.nodes, ¬ place <+: entry.1) (hp : place <+: p) : d.node? p = none := by
  have hne : p ≠ [] := by
    rintro rfl
    exact hplace (List.prefix_nil.1 hp)
  rw [node?_of_ne_nil d hne, Option.map_eq_none_iff, List.find?_eq_none]
  intro entry hentry hkey
  exact h entry hentry (of_decide_eq_true hkey ▸ hp)

/-- What is found among the entries whose places are kept. -/
theorem find?_filter_key (keep : Path → Bool) (entries : List (Path × Node)) (q : Path) :
    (entries.filter (fun entry => keep entry.1)).find? (fun entry => entry.1 = q) =
      if keep q then entries.find? (fun entry => entry.1 = q) else none := by
  induction entries with
  | nil => simp
  | cons entry entries ih =>
    rw [List.filter_cons]
    by_cases hq : entry.1 = q
    · subst hq
      cases hkeep : keep entry.1 with
      | true => simp
      | false =>
        rw [hkeep] at ih
        simpa using ih
    · cases hkeep : keep entry.1 with
      | true => simp [hq, ih]
      | false => simp [hq, ih]

theorem node?_put (hp : p ≠ []) (d : Disk) (n : Node) (q : Path) :
    (d.put p n).node? q = if q = p then some n else d.node? q := by
  by_cases hroot : q = []
  · subst hroot
    rw [node?_root, node?_root, if_neg fun h => hp h.symm]
  · rw [node?_of_ne_nil _ hroot, node?_of_ne_nil _ hroot, put]
    by_cases hq : q = p
    · simp [hq]
    · have hkept := find?_filter_key (fun key => decide (key ≠ p)) d.nodes q
      rw [if_pos (by simpa using hq)] at hkept
      rw [List.find?_cons_of_neg (by simpa using fun h => hq h.symm), hkept, if_neg hq]

/-! ## Trails -/

/-- Where a part of a path leads from a directory. -/
def next (p : Path) (part : Text) : Path :=
  if part = ['.'] then p else if part = ['.', '.'] then p.dropLast else p ++ [part]

def trailFrom : Path → List Text → List Path
  | p, [] => [p]
  | p, part :: more => p :: trailFrom (next p part) more

def parts (path : Text) : List Text :=
  (splitWhere (· == '/') path).filter (fun piece => !piece.isEmpty)

def origin (d : Disk) (path : Text) : Path :=
  if path.head? = some '/' then [] else d.workingDirectory

/-- The places that a path goes through, and the one where it ends. -/
def trail (d : Disk) (path : Text) : List Path := trailFrom (d.origin path) (parts path)

theorem walk_cons (d : Disk) (p : Path) (part : Text) (more : List Text) :
    d.walk p (part :: more) =
      match d.lookup p with
      | .error e => .error e
      | .ok none => .error .notFound
      | .ok (some .directory) => d.walk (next p part) more
      | .ok (some _) => .error .notDirectory := by
  rw [walk]
  rcases d.lookup p with _ | _ | _ | _ | _
  case ok.some.directory =>
    change (if part = ['.'] then d.walk p more
      else if part = ['.', '.'] then d.walk p.dropLast more else d.walk (p ++ [part]) more) = _
    rw [next, apply_ite (fun q => d.walk q more), apply_ite (fun q => d.walk q more)]
  all_goals rfl

theorem lookup_congr (h : d'.node? p = d.node? p) : d'.lookup p = d.lookup p := by
  rw [lookup, lookup, h]

theorem lookup_eq_ok {found : Option Node} (h : d.lookup p = .ok found) : found = d.node? p := by
  rw [lookup] at h
  split at h
  · exact absurd h (by simp)
  · exact (Except.ok.inj h).symm

/-- Whether a name is too long does not depend on the disk. -/
theorem lookup_of_lookup {found : Option Node} (h : d.lookup p = .ok found) :
    d'.lookup p = .ok (d'.node? p) := by
  rw [lookup] at h ⊢
  split at h
  · exact absurd h (by simp)
  · next hshort => rw [if_neg hshort]

theorem walk_cons_eq_ok (h : d.walk p (part :: more) = .ok q) :
    d.lookup p = .ok (some .directory) ∧ d.walk (next p part) more = .ok q := by
  rw [walk_cons] at h
  split at h
  · exact absurd h (by simp)
  · exact absurd h (by simp)
  · next hlookup => exact ⟨hlookup, h⟩
  · exact absurd h (by simp)

theorem walk_congr (h : ∀ q ∈ trailFrom p more, d'.node? q = d.node? q) :
    d'.walk p more = d.walk p more := by
  induction more generalizing p with
  | nil => rfl
  | cons part more ih =>
    obtain ⟨hp, hmore⟩ := List.forall_mem_cons.1 h
    rw [walk_cons, walk_cons, lookup_congr hp, ih hmore]

theorem mem_trailFrom_of_walk (h : d.walk p more = .ok q) : q ∈ trailFrom p more := by
  induction more generalizing p with
  | nil =>
    obtain rfl := Except.ok.inj h
    exact List.mem_singleton_self _
  | cons part more ih => exact List.mem_cons_of_mem _ (ih (walk_cons_eq_ok h).2)

/-- A way through directories stays one as long as they are directories. -/
theorem walk_of_directories (h : d.walk p more = .ok q)
    (hdirectories : ∀ r, d.node? r = some .directory → d'.node? r = some .directory) :
    d'.walk p more = .ok q := by
  induction more generalizing p with
  | nil => exact h
  | cons part more ih =>
    obtain ⟨hlookup, hwalk⟩ := walk_cons_eq_ok h
    have hp := (lookup_eq_ok hlookup).symm
    rw [walk_cons, lookup_congr ((hdirectories p hp).trans hp.symm), hlookup]
    exact ih hwalk

/-! ## Where a path leads -/

theorem locate_eq (d : Disk) (path : Text) :
    d.locate path =
      if path.contains '\x00' then .error .nulInName
      else if path.isEmpty then .error .notFound
      else if longestPath ≤ byteLength path then .error .nameTooLong
      else (d.walk (d.origin path) (parts path)).map
        (·, ((splitWhere (· == '/') path).getLast?.getD []).isEmpty) := rfl

theorem locate_congr
    (h : d'.walk (d'.origin path) (parts path) = d.walk (d.origin path) (parts path)) :
    d'.locate path = d.locate path := by
  rw [locate_eq, locate_eq, h]

theorem walk_of_locate (h : d.locate path = .ok (p, only)) :
    d.walk (d.origin path) (parts path) = .ok p := by
  rw [locate_eq] at h
  split at h
  · exact absurd h (by simp)
  split at h
  · exact absurd h (by simp)
  split at h
  · exact absurd h (by simp)
  · obtain ⟨q, hwalk, hq⟩ := map_eq_ok_iff.1 h
    obtain ⟨rfl, -⟩ := Prod.mk.inj hq
    exact hwalk

/-- The path does not lead to a device. -/
def NoDevice (d : Disk) (path : Text) : Prop :=
  ∀ p only device, d.locate path = .ok (p, only) → d.node? p ≠ some (.device device)

/-- The disk with the path's file, or unchanged if the path leads to a device. -/
theorem write_eq_ok (h : d.write path content = .ok d') :
    ∃ p, d.locate path = .ok (p, false) ∧ d.lookup p = .ok (d.node? p) ∧
      ((∃ device, d.node? p = some (.device device)) ∧ d' = d ∨
        (d.node? p ≠ some .directory ∧ ∃ executable, d' = d.put p (.file content executable))) := by
  rw [write] at h
  obtain ⟨⟨p, only⟩, hlocate, h⟩ := bind_eq_ok_iff.1 h
  cases only with
  | true => exact absurd h throw_ne_ok
  | false =>
    obtain ⟨found, hlookup, h⟩ := bind_eq_ok_iff.1 h
    obtain rfl := lookup_eq_ok hlookup
    refine ⟨p, hlocate, hlookup, ?_⟩
    split at h
    · next hnone => exact .inr ⟨by simp [hnone], false, (Except.ok.inj h).symm⟩
    · exact absurd h throw_ne_ok
    · next hdevice =>
      split at h
      · exact .inl ⟨⟨_, hdevice⟩, (Except.ok.inj h).symm⟩
      · exact absurd h throw_ne_ok
    · next hdevice => exact .inl ⟨⟨_, hdevice⟩, (Except.ok.inj h).symm⟩
    · next hfile => exact .inr ⟨by simp [hfile], _, (Except.ok.inj h).symm⟩

theorem workingDirectory_of_write (h : d.write path content = .ok d') :
    d'.workingDirectory = d.workingDirectory := by
  obtain ⟨p, -, -, ⟨-, rfl⟩ | ⟨-, executable, rfl⟩⟩ := write_eq_ok h
  · rfl
  · rfl

/-- The places that are not the root have something else than a directory, or nothing. -/
theorem ne_nil_of_not_directory (h : d.node? p ≠ some .directory) : p ≠ [] := by
  rintro rfl
  exact h (node?_root d)

theorem read_of_file (executable : Bool) (hlocate : d.locate path = .ok (p, false))
    (hlookup : d.lookup p = .ok (some (.file content executable))) : d.read path = .ok content := by
  rw [read, hlocate]
  change (d.lookup p >>= _) = _
  rw [hlookup]
  rfl

theorem read_of_write (hdevice : d.NoDevice path) (h : d.write path content = .ok d') :
    d'.read path = .ok content := by
  obtain ⟨p, hlocate, hlookup, ⟨⟨device, hnode⟩, -⟩ | ⟨hnode, executable, rfl⟩⟩ := write_eq_ok h
  · exact absurd hnode (hdevice p false device hlocate)
  · have hp := ne_nil_of_not_directory hnode
    -- The directories on the way are not the file's place.
    have hdirectories : ∀ r, d.node? r = some .directory →
        (d.put p (.file content executable)).node? r = some .directory := by
      intro r hr
      rw [node?_put hp, if_neg]
      · exact hr
      · rintro rfl
        exact hnode hr
    have hwalk := walk_of_locate hlocate
    have hsame : (d.put p (.file content executable)).locate path = d.locate path :=
      locate_congr ((walk_of_directories hwalk hdirectories).trans hwalk.symm)
    refine read_of_file executable (hsame.trans hlocate) ?_
    rw [lookup_of_lookup hlookup, node?_put hp, if_pos rfl]

/-! ## What a path can tell -/

/-- The path leads to the same place, and what is there is the same. -/
structure Untouched (path : Text) (d d' : Disk) : Prop where
  workingDirectory : d'.workingDirectory = d.workingDirectory
  locate : d'.locate path = d.locate path
  node : ∀ p only, d.locate path = .ok (p, only) → d'.node? p = d.node? p

namespace Untouched

theorem refl (path : Text) (d : Disk) : Untouched path d d := ⟨rfl, rfl, fun _ _ _ => rfl⟩

theorem trans (h : Untouched path d d') (h' : Untouched path d' d'') : Untouched path d d'' :=
  ⟨h'.workingDirectory.trans h.workingDirectory, h'.locate.trans h.locate, fun p only hp =>
    (h'.node p only (h.locate.trans hp)).trans (h.node p only hp)⟩

theorem symm (h : Untouched path d d') : Untouched path d' d :=
  ⟨h.workingDirectory.symm, h.locate.symm, fun p only hp =>
    (h.node p only (h.locate.symm.trans hp)).symm⟩

theorem trail (h : Untouched path d d') : d'.trail path = d.trail path := by
  rw [Disk.trail, Disk.trail, origin, origin, h.workingDirectory]

theorem noDevice (h : Untouched path d d') (hd : d.NoDevice path) : d'.NoDevice path := by
  intro p only device hp
  rw [h.locate] at hp
  rw [h.node p only hp]
  exact hd p only device hp

/-- A file can be written if it could be written before. -/
theorem exists_write (h : Untouched path d d') (hwrite : ∃ e, d.write path content = .ok e) :
    ∃ e, d'.write path content = .ok e := by
  obtain ⟨e, hwrite⟩ := hwrite
  rw [write] at hwrite ⊢
  obtain ⟨⟨p, only⟩, hlocate, hwrite⟩ := bind_eq_ok_iff.1 hwrite
  rw [h.locate, hlocate]
  cases only with
  | true => exact absurd hwrite throw_ne_ok
  | false =>
    obtain ⟨found, hlookup, hwrite⟩ := bind_eq_ok_iff.1 hwrite
    change ∃ e, (d'.lookup p >>= _) = Except.ok e
    rw [lookup_congr (h.node p false hlocate), hlookup]
    rcases found with _ | _ | _ | device
    case none => exact ⟨_, rfl⟩
    case some.file => exact ⟨_, rfl⟩
    case some.directory => exact absurd hwrite throw_ne_ok
    case some.device =>
      cases device with
      | full =>
        change ∃ e, (if content.isEmpty then _ else _) = Except.ok e
        change (if content.isEmpty then _ else _) = Except.ok _ at hwrite
        split at hwrite
        · next hempty => exact ⟨_, if_pos hempty⟩
        · exact absurd hwrite throw_ne_ok
      | null => exact ⟨_, rfl⟩
      | stream number => exact ⟨_, rfl⟩

end Untouched

/-! ## One directory -/

/-- Nothing has changed but at a place and below it, and no device has come there. -/
structure Within (place : Path) (d d' : Disk) : Prop where
  workingDirectory : d'.workingDirectory = d.workingDirectory
  node : ∀ q, ¬ place <+: q → d'.node? q = d.node? q
  device : ∀ q device, d'.node? q = some (.device device) → d.node? q = some (.device device)

theorem Within.refl (place : Path) (d : Disk) : Within place d d :=
  ⟨rfl, fun _ _ => rfl, fun _ _ => id⟩

/-- A path that keeps away from a place cannot tell what happens there. -/
theorem Within.untouched (h : Within place d d') (hapart : ∀ q ∈ d.trail path, ¬ place <+: q) :
    Untouched path d d' := by
  have horigin : d'.origin path = d.origin path := by rw [origin, origin, h.workingDirectory]
  have hwalk : d'.walk (d'.origin path) (parts path) = d.walk (d.origin path) (parts path) := by
    rw [horigin]
    exact walk_congr fun q hq => h.node q (hapart q hq)
  refine ⟨h.workingDirectory, locate_congr hwalk, fun p only hp => h.node p (hapart p ?_)⟩
  exact mem_trailFrom_of_walk (walk_of_locate hp)

theorem within_put (hp : p ≠ []) (hplace : place <+: p) (d : Disk)
    (hn : ∀ device, n ≠ .device device) : Within place d (d.put p n) := by
  refine ⟨rfl, fun q hq => ?_, fun q device hq => ?_⟩
  · rw [node?_put hp, if_neg]
    rintro rfl
    exact hq hplace
  · rw [node?_put hp] at hq
    split at hq
    · exact absurd (Option.some.inj hq) (hn device)
    · exact hq

/-! ## Paths without dots -/

/-- A part that names an entry of the directory before it. -/
structure Plain (part : Text) : Prop where
  ne_nil : part ≠ []
  slash_not_mem : '/' ∉ part
  ne_dot : part ≠ ['.']
  ne_dots : part ≠ ['.', '.']

/-- The path of a place, from the root on. -/
def absolute (p : Path) : Text := p.flatMap ('/' :: ·)

theorem splitWhere_append_absolute (hpart : '/' ∉ part) (hp : ∀ part ∈ p, Plain part) :
    splitWhere (· == '/') (part ++ absolute p) = part :: p := by
  induction p generalizing part with
  | nil =>
    rw [absolute, List.flatMap_nil, List.append_nil]
    exact splitWhere_of_forall (beq_eq_false_of_mem hpart)
  | cons first p ih =>
    obtain ⟨hfirst, hp⟩ := List.forall_mem_cons.1 hp
    rw [absolute, List.flatMap_cons, List.cons_append,
      splitWhere_append_cons (beq_eq_false_of_mem hpart) (beq_self_eq_true '/')]
    exact congrArg _ (ih hfirst.slash_not_mem hp)

theorem parts_absolute (hp : ∀ part ∈ p, Plain part) : parts (absolute p) = p := by
  have hsplit : splitWhere (· == '/') (absolute p) = [] :: p :=
    splitWhere_append_absolute List.not_mem_nil hp
  rw [parts, hsplit, List.filter_cons_of_neg (by simp), List.filter_eq_self]
  intro part hpart
  simpa using (hp part hpart).ne_nil

theorem walk_of_plain (hmore : ∀ part ∈ more, Plain part) (h : d.walk p more = .ok q) :
    q = p ++ more := by
  induction more generalizing p with
  | nil =>
    obtain rfl := Except.ok.inj h
    exact (List.append_nil p).symm
  | cons part more ih =>
    obtain ⟨hpart, hmore⟩ := List.forall_mem_cons.1 hmore
    have hwalk := (walk_cons_eq_ok h).2
    rw [next, if_neg hpart.ne_dot, if_neg hpart.ne_dots] at hwalk
    rw [ih hmore hwalk, List.append_assoc]
    rfl

theorem locate_absolute (hp : ∀ part ∈ p, Plain part) (h : d.locate (absolute p) = .ok (q, only)) :
    q = p ∧ p ≠ [] := by
  cases p with
  | nil =>
    rw [locate_eq] at h
    exact absurd h (by simp [absolute])
  | cons first p =>
    have hwalk := walk_of_locate h
    rw [parts_absolute hp] at hwalk
    exact ⟨walk_of_plain hp hwalk, List.cons_ne_nil first p⟩

theorem join_absolute (place : Path) (hname : Plain name) :
    join (absolute place) name = absolute (place ++ [name]) := by
  have hhead : name.head? ≠ some '/' := fun h => hname.slash_not_mem (List.mem_of_head? h)
  rw [join, if_neg hhead, absolute, absolute, List.flatMap_append, List.flatMap_singleton]

/-! ## Work in one directory -/

section

variable (hplace : ∀ part ∈ place, Plain part)

include hplace

theorem within_makeDirectory (d : Disk) : Within place d (d.makeDirectory (absolute place)) := by
  rw [makeDirectory]
  split
  · next p only hlocate =>
    obtain ⟨rfl, hp⟩ := locate_absolute hplace hlocate
    exact within_put hp List.prefix_rfl d nofun
  · exact .refl place d

theorem node?_removeTree (d : Disk) (q : Path) :
    (d.removeTree (absolute place)).node? q = d.node? q ∨
      (place <+: q ∧ (d.removeTree (absolute place)).node? q = none) := by
  by_cases hroot : q = []
  · subst hroot
    exact .inl rfl
  rw [removeTree]
  split
  · next p only hlocate =>
    obtain ⟨rfl, -⟩ := locate_absolute hplace hlocate
    rw [node?_of_ne_nil _ hroot, node?_of_ne_nil _ hroot,
      find?_filter_key (fun key => !p.isPrefixOf key)]
    cases hq : p.isPrefixOf q with
    | true => exact .inr ⟨List.isPrefixOf_iff_prefix.1 hq, rfl⟩
    | false => exact .inl rfl
  · exact .inl rfl

theorem within_removeTree (d : Disk) : Within place d (d.removeTree (absolute place)) := by
  refine ⟨?_, fun q hq => ?_, fun q device hq => ?_⟩
  · rw [removeTree]
    split <;> rfl
  · exact (node?_removeTree hplace d q).resolve_right fun h => hq h.1
  · obtain h | ⟨-, h⟩ := node?_removeTree hplace d q
    · exact h ▸ hq
    · exact absurd (h.symm.trans hq) nofun

theorem locate_join (hname : Plain name)
    (h : d.locate (join (absolute place) name) = .ok (p, only)) : p = place ++ [name] ∧ p ≠ [] := by
  rw [join_absolute place hname] at h
  have hplain : ∀ part ∈ place ++ [name], Plain part := by
    intro part hpart
    rcases List.mem_append.1 hpart with hpart | hpart
    · exact hplace part hpart
    · exact List.mem_singleton.1 hpart ▸ hname
  obtain ⟨rfl, hp⟩ := locate_absolute hplain h
  exact ⟨rfl, hp⟩

theorem within_write (hname : Plain name)
    (h : d.write (join (absolute place) name) content = .ok d') : Within place d d' := by
  obtain ⟨p, hlocate, -, ⟨-, rfl⟩ | ⟨-, executable, rfl⟩⟩ := write_eq_ok h
  · exact .refl place d'
  · obtain ⟨rfl, hp⟩ := locate_join hplace hname hlocate
    exact within_put hp (List.prefix_append place [name]) d nofun

end

end Disk

/-! ## Streams -/

theorem Disk.stream?_of_noDevice {d : Disk} {path : Text} (h : d.NoDevice path) :
    d.stream? path = none := by
  rw [stream?]
  split
  · next p hlocate =>
    split
    · next number hnode => exact absurd hnode (h p false (.stream number) hlocate)
    · rfl
  · rfl

/-- A text goes to the disk unless it is for a device. -/
theorem Session.write_of_noDevice {s : Session} {path : Text} (h : s.disk.NoDevice path) (t : Text) :
    s.write path t = (s.disk.write path t.toBytes).map fun d => { s with disk := d } := by
  rw [write, Disk.stream?_of_noDevice h]
  rfl

end HeaderConstants
