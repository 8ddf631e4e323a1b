import Mathlib.Data.List.Induction
import Mathlib.Data.List.Nodup
import SinglePass.FileTree
import SinglePass.Proofs.Command.Collecting

/-!
# Trees without links

In a tree without links a path is followed name by name, so a path that is made longer by a name
leads one step further down.

* `FileTree.Plain`: nothing is a link, and everything has a name that can be one, in a directory.
* `pathParts_pathBelow`: the names below a path are parts of the longer path, so that different
  names give different paths.
* `FileTree.Leads`: a path names a directory.  `Leads.join` is the step to a directory in it, and
  `Leads.isDirectory_iff` says when this step can be made.
-/

namespace SinglePass

/-! ## Names and paths -/

/-- May something in a directory have this name? -/
structure IsName (name : OsText) : Prop where
  ne_nil : name ≠ []
  no_slash : slash ∉ name
  no_nul : 0 ∉ name
  /-- Two names stand for directories that are always there. -/
  no_dots : name ≠ [dot] ∧ name ≠ [dot, dot]
  length_le : name.length ≤ maxNameSize

instance (name : OsText) : Decidable (IsName name) :=
  decidable_of_iff (name ≠ [] ∧ slash ∉ name ∧ 0 ∉ name ∧ (name ≠ [dot] ∧ name ≠ [dot, dot]) ∧
      name.length ≤ maxNameSize)
    ⟨fun ⟨hnil, hslash, hnul, hdots, hlength⟩ => ⟨hnil, hslash, hnul, hdots, hlength⟩,
      fun h => ⟨h.ne_nil, h.no_slash, h.no_nul, h.no_dots, h.length_le⟩⟩

/-- The names in a path, without what a slash at the end asks for. -/
def pathParts (path : OsText) : List OsText := (splitSlashes path).filter (· ≠ [])

section

variable {path name bs : OsText}

/-- A path has at least one part, if an empty one. -/
theorem splitSlashes_ne_nil (bs : OsText) : splitSlashes bs ≠ [] := by
  unfold splitSlashes
  split
  · exact List.cons_ne_nil _ _
  · split
    · exact List.cons_ne_nil _ _
    · split <;> exact List.cons_ne_nil _ _

/-- A path is split at each of its slashes. -/
theorem splitSlashes_append (bs bs' : OsText) :
    splitSlashes (bs ++ slash :: bs') = splitSlashes bs ++ splitSlashes bs' := by
  induction bs with
  | nil => simp [splitSlashes]
  | cons b bs ih =>
    rw [List.cons_append, splitSlashes, splitSlashes, ih]
    split
    · rfl
    · obtain ⟨part, parts, hparts⟩ := List.exists_cons_of_ne_nil (splitSlashes_ne_nil bs)
      rw [hparts]
      rfl

/-- Without a slash a path is a single part. -/
theorem splitSlashes_of_no_slash (h : slash ∉ bs) : splitSlashes bs = [bs] := by
  induction bs with
  | nil => rfl
  | cons b bs ih =>
    have hb : b ≠ slash := fun heq => h (heq ▸ List.mem_cons_self)
    rw [splitSlashes, if_neg hb, ih fun hmem => h (List.mem_cons_of_mem _ hmem)]

namespace Command

/-- A name is joined to a path behind a slash, which may be there already. -/
theorem joinPath_cases (path name : OsText) (h : path ≠ []) :
    (∃ front, path = front ++ [slash] ∧ joinPath path name = front ++ slash :: name) ∨
      joinPath path name = path ++ slash :: name := by
  by_cases hlast : path.getLast? = some slash
  · obtain ⟨front, rfl⟩ := List.getLast?_eq_some_iff.1 hlast
    refine .inl ⟨front, rfl, ?_⟩
    rw [joinPath, if_pos (.inr hlast), List.append_assoc]
    rfl
  · refine .inr ?_
    rw [joinPath, if_neg (not_or.2 ⟨h, hlast⟩)]

/-- A name that is joined to a path is the last of its names. -/
theorem pathParts_joinPath (hpath : path ≠ []) (h : IsName name) :
    pathParts (joinPath path name) = pathParts path ++ [name] := by
  have hname : splitSlashes name = [name] := splitSlashes_of_no_slash h.no_slash
  have hkept : [name].filter (· ≠ []) = [name] := by
    simp [h.ne_nil]
  rcases joinPath_cases path name hpath with ⟨front, rfl, hjoin⟩ | hjoin
  · have hdropped : [[]].filter (· ≠ ([] : OsText)) = [] := rfl
    rw [pathParts, pathParts, hjoin, splitSlashes_append, splitSlashes_append, hname,
      List.filter_append, List.filter_append, hkept, splitSlashes, hdropped, List.append_nil]
  · rw [pathParts, pathParts, hjoin, splitSlashes_append, hname, List.filter_append, hkept]

/-- Joining a name to a path gives a path that is not empty. -/
theorem joinPath_ne_nil (hpath : path ≠ []) : joinPath path name ≠ [] := by
  unfold joinPath
  split <;> simp [hpath]

/-- The names that lead down from a path are the last of its names. -/
theorem pathParts_pathBelow {names : List OsText} (hpath : path ≠ [])
    (h : ∀ name ∈ names, IsName name) :
    pathParts (pathBelow path names) = pathParts path ++ names := by
  induction names generalizing path with
  | nil => rw [pathBelow_nil, List.append_nil]
  | cons name names ih =>
    rw [pathBelow_cons,
      ih (joinPath_ne_nil hpath) fun other hother => h other (List.mem_cons_of_mem _ hother),
      pathParts_joinPath hpath (h name List.mem_cons_self), List.append_assoc]
    rfl

/-- A name has no slash at its end, so the path asks for no directory there. -/
theorem pathNames_joinPath (hpath : path ≠ []) (h : IsName name) :
    pathNames (joinPath path name) = pathParts path ++ [name] := by
  have hlast : (joinPath path name).getLast? ≠ some slash := by
    have hjoin : ∃ front, joinPath path name = front ++ name := by
      unfold joinPath
      split
      · exact ⟨path, rfl⟩
      · exact ⟨path ++ [slash], by rw [List.append_assoc]; rfl⟩
    obtain ⟨front, hjoin⟩ := hjoin
    rw [hjoin, List.getLast?_append_of_ne_nil _ h.ne_nil]
    exact fun hslash => h.no_slash (List.mem_of_getLast? hslash)
  rw [← pathParts_joinPath hpath h]
  exact if_neg hlast

/-- A path stays absolute, or relative, when a name is joined to it. -/
theorem isAbsolute_joinPath (h : path ≠ []) :
    isAbsolute (joinPath path name) = isAbsolute path := by
  obtain ⟨b, more, rfl⟩ := List.exists_cons_of_ne_nil h
  unfold joinPath isAbsolute
  split <;> rfl

/-- A name brings no other fault to a path than its length. -/
theorem pathFault?_joinPath (hpath : pathFault? path = none) (h : IsName name) :
    pathFault? (joinPath path name) =
      if maxPathSize ≤ (joinPath path name).length then some .nameTooLong else none := by
  have hnul : 0 ∉ path := by
    intro hmem
    rw [pathFault?, if_pos hmem] at hpath
    cases hpath
  have hne : path ≠ [] := by
    rintro rfl
    cases hpath
  have hnul' : 0 ∉ joinPath path name := by
    have hslash : (0 : UInt8) ≠ slash := by decide
    unfold joinPath
    split <;> simp [hnul, h.no_nul, hslash]
  rw [pathFault?, if_neg hnul', if_neg (joinPath_ne_nil hne)]

end Command

end

/-! ## Trees -/

namespace FileTree

open Command

/-- A tree without links, as it stands on a disk. -/
structure Plain (t : FileTree) : Prop where
  named : ∀ entry ∈ t.nodes, ∀ name ∈ entry.1, IsName name
  unlinked : ∀ entry ∈ t.nodes, ∀ target, entry.2 ≠ .link target
  /-- What has a name stands in a directory. -/
  housed : ∀ entry ∈ t.nodes, ∃ access, t.node? entry.1.dropLast = some (.directory access)
  distinct : (t.nodes.map Prod.fst).Nodup

/-- The path names the directory at this place. -/
structure Leads (t : FileTree) (path : OsText) (place : List OsText) (access : Access) : Prop where
  fault_eq : pathFault? path = none
  resolve_eq : t.resolve path = .ok place
  node_eq : t.node? place = some (.directory access)

variable {t : FileTree} {path name : OsText} {place here : List OsText} {node : Node}
  {access : Access}

/-- What has a name in a directory stands among the nodes. -/
theorem node?_append_singleton (t : FileTree) (place : List OsText) (name : OsText) :
    t.node? (place ++ [name]) = t.nodes.lookup (place ++ [name]) := by
  rw [node?, if_neg (by simp)]

/-- What is looked up among the nodes is one of them. -/
theorem mem_of_lookup (h : t.nodes.lookup place = some node) : (place, node) ∈ t.nodes := by
  obtain ⟨before, behind, hnodes, -⟩ := List.lookup_eq_some_iff.1 h
  rw [hnodes]
  exact List.mem_append_right _ List.mem_cons_self

/-- The names that lead to something in a directory are those of the directory and one more. -/
theorem last_eq_some_iff {names : List OsText} :
    (if names.dropLast = place then names.getLast? else none) = some name ↔
      names = place ++ [name] := by
  constructor
  · intro h
    split at h
    · next hplace =>
      obtain ⟨front, rfl⟩ := List.getLast?_eq_some_iff.1 h
      rw [← hplace, List.dropLast_concat]
    · cases h
  · rintro rfl
    rw [List.dropLast_concat, if_pos rfl, List.getLast?_concat]

/-- The names in a directory are those under which something stands there. -/
theorem mem_names : name ∈ t.names place ↔ ∃ node, t.node? (place ++ [name]) = some node := by
  rw [names, List.mem_filterMap, ← Option.isSome_iff_exists, node?_append_singleton,
    List.lookup_isSome_iff]
  refine exists_congr fun entry => and_congr_right fun _ => ?_
  rw [beq_iff_eq, eq_comm (a := place ++ [name]), ← last_eq_some_iff]

/-- The names in a directory are different if all places are. -/
theorem nodup_names (h : (t.nodes.map Prod.fst).Nodup) : (t.names place).Nodup := by
  have hnames : t.names place = (t.nodes.map Prod.fst).filterMap fun names =>
      if names.dropLast = place then names.getLast? else none := by
    rw [names, List.filterMap_map]
    rfl
  rw [hnames]
  apply h.filterMap
  intro names names' name hname hname'
  rw [last_eq_some_iff.1 hname, last_eq_some_iff.1 hname']

/-- However many links may still be followed, names are followed in one way. -/
theorem exists_walk_eq (t : FileTree) (links : Nat) :
    ∃ follow, t.walk links = t.walkWith follow := by
  cases links with
  | zero => exact ⟨_, rfl⟩
  | succ links => exact ⟨_, rfl⟩

namespace Plain

variable (h : t.Plain)

include h

/-- There are no links in a plain tree. -/
theorem node?_ne_link (place : List OsText) (target : OsText) :
    t.node? place ≠ some (.link target) := by
  unfold node?
  split
  · exact fun hlink => nomatch hlink
  · exact fun hlink => h.unlinked _ (mem_of_lookup hlink) target rfl

/-- What stands in a directory has a name that can be one. -/
theorem isName_of_node? (hnode : t.node? (place ++ [name]) = some node) : IsName name := by
  rw [node?_append_singleton] at hnode
  exact h.named _ (mem_of_lookup hnode) name (by simp)

/-- The names in a directory can be names. -/
theorem isName_of_mem (hname : name ∈ t.names place) : IsName name := by
  obtain ⟨node, hnode⟩ := mem_names.1 hname
  exact h.isName_of_node? hnode

/-- Above everything there is a directory. -/
theorem node?_of_append {below : List OsText} (hbelow : below ≠ [])
    (hnode : t.node? (place ++ below) = some node) :
    ∃ access, t.node? place = some (.directory access) := by
  induction below using List.reverseRecOn generalizing node with
  | nil => exact absurd rfl hbelow
  | append_singleton below name ih =>
    -- What has the last name is in a directory, and that is below the place, or the place itself.
    rw [← List.append_assoc, node?_append_singleton] at hnode
    obtain ⟨access, hparent⟩ := h.housed _ (mem_of_lookup hnode)
    rw [List.dropLast_concat] at hparent
    cases below with
    | nil => exact ⟨access, by rwa [List.append_nil] at hparent⟩
    | cons first more => exact ih (List.cons_ne_nil _ _) hparent

/-- All names that lead down to something can be names. -/
theorem isName_of_append {below : List OsText} (hnode : t.node? (place ++ below) = some node) :
    ∀ name ∈ below, IsName name := by
  cases below with
  | nil => exact fun name hname => nomatch hname
  | cons first more =>
    rw [node?, if_neg (by simp)] at hnode
    exact fun name hname => h.named _ (mem_of_lookup hnode) name (List.mem_append_right _ hname)

/-- Names are followed one behind the other. -/
theorem walkWith_append (follow : List OsText → List OsText → Except FileError (List OsText))
    (here names more : List OsText) :
    t.walkWith follow here (names ++ more) =
      (t.walkWith follow here names).bind fun place => t.walkWith follow place more := by
  induction names generalizing here with
  | nil => rfl
  | cons name names ih =>
    rw [List.cons_append, walkWith, walkWith]
    split
    · split
      · exact ih here
      · split
        · rfl
        · split
          · exact ih here
          · split
            · exact ih here.dropLast
            · split
              · rfl
              · split
                · rfl
                · next hlink => exact absurd hlink (h.node?_ne_link _ _)
                · exact ih _
    · rfl

/-- In a directory that may be searched, a name leads to what stands under it. -/
theorem walkWith_name (follow : List OsText → List OsText → Except FileError (List OsText))
    (hplace : t.node? place = some (.directory access)) (hname : IsName name) :
    t.walkWith follow place [name] =
      if access.search = false then .error .permissionDenied
      else
        match t.node? (place ++ [name]) with
        | none => .error .notFound
        | some _ => .ok (place ++ [name]) := by
  rw [walkWith, hplace]
  simp only [if_neg hname.ne_nil, if_neg hname.no_dots.1, if_neg hname.no_dots.2,
    if_neg (Nat.not_lt.2 hname.length_le)]
  split
  · rfl
  · cases hnode : t.node? (place ++ [name]) with
    | none => rfl
    | some node =>
      cases node with
      | link target => exact absurd hnode (h.node?_ne_link _ target)
      | _ => rfl

/-- A slash at the end of a path does not matter where the path leads to a directory. -/
theorem walkWith_pathParts {follow : List OsText → List OsText → Except FileError (List OsText)}
    (hwalk : t.walkWith follow here (pathNames path) = .ok place) :
    t.walkWith follow here (pathParts path) = .ok place := by
  by_cases hslash : path.getLast? = some slash
  · have hnames : pathNames path = pathParts path ++ [[]] := if_pos hslash
    rw [hnames, h.walkWith_append] at hwalk
    cases hparts : t.walkWith follow here (pathParts path) with
    | error e =>
      rw [hparts] at hwalk
      nomatch hwalk
    | ok place' =>
      rw [hparts] at hwalk
      change t.walkWith follow place' [[]] = .ok place at hwalk
      rw [walkWith] at hwalk
      split at hwalk
      · exact hwalk
      · nomatch hwalk
  · have hnames : pathNames path = pathParts path := if_neg hslash
    rwa [hnames] at hwalk

end Plain

/-! ## Paths to directories -/

/-- A path without a fault is looked at in the tree. -/
theorem view_stat_of_none (h : pathFault? path = none) : t.view.stat path = t.stat path :=
  FileView.answer_of_none h

/-- The empty path leads nowhere. -/
theorem Leads.ne_nil (h : t.Leads path place access) : path ≠ [] := by
  rintro rfl
  nomatch h.fault_eq

/-- A path that leads to a directory finds it. -/
theorem Leads.find_eq (h : t.Leads path place access) :
    t.find path = .ok (place, .directory access) := by
  rw [find, h.resolve_eq]
  simp only [h.node_eq]

/-- A path that leads to a directory is seen to be one. -/
theorem Leads.isDirectory (h : t.Leads path place access) : t.view.isDirectory path = true := by
  rw [FileView.isDirectory_iff, view_stat_of_none h.fault_eq, stat, h.find_eq]

/-- What a directory lists, if it may be listed. -/
theorem Leads.list_eq (hplain : t.Plain) (h : t.Leads path place access) :
    t.view.list path =
      if access.list then .ok ((t.names place).map .ok) else .error .permissionDenied := by
  have hnames : (t.names place).filter (· ≠ []) = t.names place :=
    List.filter_eq_self.2 fun name hname => by simpa using (hplain.isName_of_mem hname).ne_nil
  show (FileView.answer t.list path).map _ = _
  rw [FileView.answer_of_none h.fault_eq, list, h.find_eq]
  dsimp only
  split
  · show Except.ok (((t.names place).filter (· ≠ [])).map Except.ok) = _
    rw [hnames]
  · rfl

/-- What is seen to be a directory stands at some place. -/
theorem exists_leads (h : t.view.isDirectory path = true) :
    ∃ place access, t.Leads path place access := by
  rw [FileView.isDirectory_iff] at h
  have hfault := FileView.pathFault?_of_answer h
  rw [view_stat_of_none hfault, stat, find] at h
  cases hresolve : t.resolve path with
  | error e =>
    rw [hresolve] at h
    nomatch h
  | ok place =>
    rw [hresolve] at h
    cases hnode : t.node? place with
    | none =>
      simp only [hnode] at h
      nomatch h
    | some node =>
      cases node with
      | directory access => exact ⟨place, access, hfault, hresolve, hnode⟩
      | _ =>
        simp only [hnode] at h
        nomatch h

/-- A name in a directory leads on to what has it, if the directory may be searched. -/
theorem Leads.resolve_joinPath (h : t.Leads path place access) (hplain : t.Plain)
    (hname : name ∈ t.names place) :
    t.resolve (joinPath path name) =
      if access.search = false then .error .permissionDenied else .ok (place ++ [name]) := by
  obtain ⟨node, hnode⟩ := mem_names.1 hname
  have hisName := hplain.isName_of_mem hname
  have hstart : t.start (joinPath path name) = t.start path := by
    rw [start, start, isAbsolute_joinPath h.ne_nil]
  obtain ⟨follow, hfollow⟩ := t.exists_walk_eq maxLinks
  have hresolve := h.resolve_eq
  rw [resolve, hfollow] at hresolve ⊢
  rw [hstart, pathNames_joinPath h.ne_nil hisName, hplain.walkWith_append,
    hplain.walkWith_pathParts hresolve]
  show t.walkWith follow place [name] = _
  rw [hplain.walkWith_name _ h.node_eq hisName, hnode]

/-- A directory in a directory can be seen while its path is not too long, and the directory around
it may be searched. -/
theorem Leads.isDirectory_iff (h : t.Leads path place access) (hplain : t.Plain)
    (hname : name ∈ t.names place) :
    t.view.isDirectory (joinPath path name) = true ↔
      (∃ access', t.node? (place ++ [name]) = some (.directory access')) ∧ access.search = true ∧
        (joinPath path name).length < maxPathSize := by
  have hfault := pathFault?_joinPath h.fault_eq (hplain.isName_of_mem hname)
  by_cases hlength : maxPathSize ≤ (joinPath path name).length
  · rw [if_pos hlength] at hfault
    refine iff_of_false (fun hseen => ?_) fun hseen => absurd hseen.2.2 (Nat.not_lt.2 hlength)
    exact absurd (t.view.length_lt (FileView.isDirectory_iff.1 hseen)) (Nat.not_lt.2 hlength)
  · rw [if_neg hlength] at hfault
    rw [FileView.isDirectory_iff, view_stat_of_none hfault, stat, find,
      h.resolve_joinPath hplain hname]
    have hlt := Nat.lt_of_not_le hlength
    cases hsearch : access.search with
    | false => simp
    | true =>
      cases hnode : t.node? (place ++ [name]) with
      | none => simp [hnode]
      | some node => cases node <;> simp [hnode, hlt]

/-- Where the step to a directory can be made, the longer path names that directory. -/
theorem Leads.join (h : t.Leads path place access) (hplain : t.Plain) (hname : name ∈ t.names place)
    (hseen : t.view.isDirectory (joinPath path name) = true) :
    ∃ access', t.Leads (joinPath path name) (place ++ [name]) access' := by
  obtain ⟨⟨access', hnode⟩, hsearch, hlength⟩ := (h.isDirectory_iff hplain hname).1 hseen
  have hfault := pathFault?_joinPath h.fault_eq (hplain.isName_of_mem hname)
  have hresolve := h.resolve_joinPath hplain hname
  rw [if_neg (Nat.not_le.2 hlength)] at hfault
  rw [if_neg (by simp [hsearch])] at hresolve
  exact ⟨access', hfault, hresolve, hnode⟩

end FileTree

end SinglePass
