import SinglePass.Proofs.Command.PlainTrees
import SinglePass.Proofs.Scanning.Bytes

/-!
# What is collected in a tree

The files that a path to a directory stands for, in a tree without links.  They are told by what the
tree holds, by what its directories allow, and by how long the paths are that lead there
(`Collected`); `found_iff_collected` ties this to what is found through paths.

Three things come between this and the source files below the directory (`IsSource`), because
whatever cannot be told of a directory is passed over in silence.

* A path of `maxPathSize` bytes leads nowhere, and nothing can be looked up in a directory that may
  not be searched.  What cannot be seen to be a directory counts as a file like any other:
  `overlong_directory_collected`.
* A directory that may not be listed stands for nothing.
* A name that is not valid as a text counts as empty, so a hidden directory of such a name is walked
  all the same: `hidden_directory_walked`.

Where none of them is met (`Walkable`), exactly the source files are collected.
-/

namespace SinglePass

/-! ## Names of texts -/

/-- Bytes are valid if they are those of a text. -/
theorem textOf?_eq_some_iff {name : OsText} {text : String} :
    textOf? name = some text ↔ name = utf8 text := by
  have hbytes : utf8 text = Source.encode text := (Source.encode_eq_encodeChars text).symm
  rw [textOf?, String.fromUTF8?, hbytes]
  constructor
  · intro h
    split at h
    · obtain rfl := Option.some.inj h
      exact List.toList_data_toByteArray.symm
    · cases h
  · rintro rfl
    have hvalid : (Source.encode text).toByteArray = text.toUTF8 :=
      ByteArray.ext (Array.toList_inj.1 List.toList_data_toByteArray)
    rw [hvalid, String.toUTF8_eq_toByteArray, dif_pos text.isValidUTF8]
    rfl

namespace Command

variable {t : FileTree} {path name : OsText} {place below : List OsText} {access : Access}

/-- Is a name hidden? -/
def IsHidden (name : OsText) : Prop := name.head? = some dot

instance : DecidablePred IsHidden := fun name => inferInstanceAs (Decidable (name.head? = some dot))

/-- The bytes of a text begin with a full stop if the text does. -/
theorem head?_utf8 (text : String) :
    (utf8 text).head? = some dot ↔ text.toList.head? = some '.' := by
  unfold utf8
  cases text.toList with
  | nil => simp
  | cons c cs =>
    obtain ⟨b, bytes, hbytes⟩ := List.exists_cons_of_ne_nil (String.utf8EncodeChar_ne_nil (c := c))
    rw [List.flatMap_cons, hbytes, List.cons_append, List.head?_cons, List.head?_cons]
    constructor
    · intro h
      obtain rfl := Option.some.inj h
      have hmem : dot ∈ String.utf8EncodeChar c := by simp [hbytes]
      rw [Source.eq_of_mem_utf8EncodeChar hmem (by decide) (d := '.') rfl]
    · intro h
      obtain rfl := Option.some.inj h
      rw [← (List.cons.inj (hbytes.symm.trans (show String.utf8EncodeChar '.' = [dot] from rfl))).1]

/-- A directory is passed over if its name is hidden and valid, or `target`. -/
theorem isSkipped_iff : isSkipped name = true ↔
    IsHidden name ∧ (textOf? name).isSome = true ∨ name = utf8 "target" := by
  cases htext : textOf? name with
  | none =>
    have hother : name ≠ utf8 "target" := fun h => by
      rw [textOf?_eq_some_iff.2 h] at htext
      nomatch htext
    simp [isSkipped, nameText, htext, hother]
  | some text =>
    have hname := textOf?_eq_some_iff.1 htext
    have htarget : text = "target" ↔ name = utf8 "target" := by
      rw [← textOf?_eq_some_iff, htext, Option.some_inj]
    have hhidden : IsHidden name ↔ text.toList.head? = some '.' := by
      rw [IsHidden, hname, head?_utf8]
    simp [isSkipped, nameText, htext, ← htarget, hhidden]

/-- A source file has something before its extension. -/
theorem extension?_eq_sourceExtension :
    extension? name = some sourceExtension ↔ ∃ stem, stem ≠ [] ∧ name = stem ++ utf8 ".sim" := by
  have hsplit := List.takeWhile_append_dropWhile (p := (· ≠ dot)) (l := name.reverse)
  constructor
  · intro h
    unfold extension? at h
    split at h
    · next point last more hdrop =>
      have hpoint : point = dot := by
        have hhead := List.head?_dropWhile_not (· ≠ dot) name.reverse
        rw [hdrop] at hhead
        simpa using hhead
      have htake : (name.reverse.takeWhile (· ≠ dot)).reverse = utf8 "sim" := Option.some.inj h
      rw [hdrop, ← List.reverse_reverse (name.reverse.takeWhile _), htake, hpoint] at hsplit
      refine ⟨(last :: more).reverse, by simp, ?_⟩
      have hext : utf8 ".sim" = dot :: utf8 "sim" := rfl
      rw [← List.reverse_reverse name, ← hsplit, hext]
      simp
    · nomatch h
  · rintro ⟨stem, hstem, rfl⟩
    have hreverse : (stem ++ utf8 ".sim").reverse = 109 :: 105 :: 115 :: dot :: stem.reverse := by
      rw [List.reverse_append]
      rfl
    obtain ⟨last, more, hmore⟩ :=
      List.exists_cons_of_ne_nil (mt List.reverse_eq_nil_iff.1 hstem)
    unfold extension?
    rw [hreverse, hmore]
    rfl

/-! ## What is to be collected -/

/-- Names lead down from a directory to a source file. -/
structure IsSource (t : FileTree) (place below : List OsText) : Prop where
  source : ∃ front stem, below = front ++ [stem ++ utf8 ".sim"] ∧ stem ≠ []
  file : ∃ node, t.node? (place ++ below) = some node ∧ ∀ access, node ≠ .directory access
  /-- No directory between is passed over. -/
  not_skipped : ∀ name ∈ below.dropLast, ¬ IsHidden name ∧ name ≠ utf8 "target"

/-- Names lead down from a directory to something that is collected. -/
inductive Collected (t : FileTree) : OsText → List OsText → List OsText → Prop
  /-- What is not seen to be a directory is collected for its extension. -/
  | file {path name : OsText} {place : List OsText} {access : Access} {node : Node}
      (directory : t.node? place = some (.directory access)) (listed : access.list = true)
      (node_eq : t.node? (place ++ [name]) = some node)
      (unseen : (∃ access', node = .directory access') →
        access.search = false ∨ maxPathSize ≤ (joinPath path name).length)
      (extension : ∃ stem, name = stem ++ utf8 ".sim" ∧ stem ≠ []) : Collected t path place [name]
  | inside {path name : OsText} {place more : List OsText} {access access' : Access}
      (directory : t.node? place = some (.directory access)) (listed : access.list = true)
      (node_eq : t.node? (place ++ [name]) = some (.directory access'))
      (searched : access.search = true) (short : (joinPath path name).length < maxPathSize)
      (walked : (textOf? name).isSome = true → ¬ IsHidden name) (other : name ≠ utf8 "target")
      (others : Collected t (joinPath path name) (place ++ [name]) more) :
      Collected t path place (name :: more)

/-- Every directory at a place and below it may be listed and searched, has a short path, and a
valid name if it is hidden. -/
structure Walkable (t : FileTree) (path : OsText) (place : List OsText) : Prop where
  allowed : ∀ {below access}, t.node? (place ++ below) = some (.directory access) →
    access.list = true ∧ access.search = true
  short : ∀ {below access}, t.node? (place ++ below) = some (.directory access) →
    (pathBelow path below).length < maxPathSize
  valid : ∀ {below name access}, t.node? (place ++ below ++ [name]) = some (.directory access) →
    IsHidden name → (textOf? name).isSome = true

/-! ## What is found in a tree -/

/-- The entries of a directory that can be listed are the names in it. -/
theorem entry_iff (hplain : t.Plain) (h : t.Leads path place access) :
    (∃ entries, t.view.list path = .ok entries ∧ .ok name ∈ entries) ↔
      access.list = true ∧ name ∈ t.names place := by
  rw [h.list_eq hplain]
  by_cases hlisted : access.list = true
  · simp [hlisted]
  · simp [hlisted]

/-- What is found below a directory is to be collected there. -/
theorem Found.collected (hfound : Found t.view path below) (hplain : t.Plain)
    (h : t.Leads path place access) : Collected t path place below := by
  induction hfound generalizing place access with
  | file _ list_eq entry unseen extension =>
    obtain ⟨hlisted, hname⟩ := (entry_iff hplain h).1 ⟨_, list_eq, entry⟩
    obtain ⟨node, hnode⟩ := FileTree.mem_names.1 hname
    obtain ⟨stem, hstem, rfl⟩ := extension?_eq_sourceExtension.1 extension
    refine .file h.node_eq hlisted hnode ?_ ⟨stem, rfl, hstem⟩
    rintro ⟨access', rfl⟩
    rw [h.isDirectory_iff hplain hname] at unseen
    -- A directory that can be searched, with a path that is short enough, would be seen.
    by_contra hseen
    rw [not_or, Bool.not_eq_false, Nat.not_le] at hseen
    exact unseen ⟨⟨access', hnode⟩, hseen⟩
  | inside _ list_eq entry seen walked _ ih =>
    obtain ⟨hlisted, hname⟩ := (entry_iff hplain h).1 ⟨_, list_eq, entry⟩
    obtain ⟨⟨access', hnode⟩, hsearched, hshort⟩ := (h.isDirectory_iff hplain hname).1 seen
    obtain ⟨_, hjoin⟩ := h.join hplain hname seen
    rw [isSkipped_iff, not_or, not_and] at walked
    exact .inside h.node_eq hlisted hnode hsearched hshort
      (fun hvalid hhidden => walked.1 hhidden hvalid) walked.2 (ih hjoin)

/-- What is to be collected below a directory is found there. -/
theorem Collected.found (hcollected : Collected t path place below) (hplain : t.Plain)
    (h : t.Leads path place access) : Found t.view path below := by
  induction hcollected generalizing access with
  | file directory listed node_eq unseen extension =>
    obtain rfl := Node.directory.inj (Option.some.inj (h.node_eq.symm.trans directory))
    have hname := FileTree.mem_names.2 ⟨_, node_eq⟩
    obtain ⟨entries, hlist, hentry⟩ := (entry_iff hplain h).2 ⟨listed, hname⟩
    obtain ⟨stem, hstem, hne⟩ := extension
    refine .file h.isDirectory hlist hentry (fun hseen => ?_)
      (extension?_eq_sourceExtension.2 ⟨stem, hne, hstem⟩)
    obtain ⟨⟨access', hnode⟩, hsearched, hshort⟩ := (h.isDirectory_iff hplain hname).1 hseen
    rcases unseen ⟨access', Option.some.inj (node_eq.symm.trans hnode)⟩ with hsearch | hlong
    · rw [hsearched] at hsearch
      nomatch hsearch
    · exact absurd hshort (Nat.not_lt.2 hlong)
  | inside directory listed node_eq searched short walked other _ ih =>
    obtain rfl := Node.directory.inj (Option.some.inj (h.node_eq.symm.trans directory))
    have hname := FileTree.mem_names.2 ⟨_, node_eq⟩
    obtain ⟨entries, hlist, hentry⟩ := (entry_iff hplain h).2 ⟨listed, hname⟩
    have hseen := (h.isDirectory_iff hplain hname).2 ⟨⟨_, node_eq⟩, searched, short⟩
    obtain ⟨_, hjoin⟩ := h.join hplain hname hseen
    refine .inside h.isDirectory hlist hentry hseen ?_ (ih hjoin)
    rw [isSkipped_iff, not_or, not_and]
    exact ⟨fun hhidden hvalid => walked hvalid hhidden, other⟩

/-- What is found below a directory is what is to be collected there. -/
theorem found_iff_collected (hplain : t.Plain) (h : t.Leads path place access) :
    Found t.view path below ↔ Collected t path place below :=
  ⟨fun hfound => hfound.collected hplain h, fun hcollected => hcollected.found hplain h⟩

/-! ## Where every directory can be walked -/

/-- The directory at the place itself may be listed and searched. -/
theorem Walkable.here (h : Walkable t path place)
    (hnode : t.node? place = some (.directory access)) :
    access.list = true ∧ access.search = true := by
  rw [← List.append_nil place] at hnode
  exact h.allowed hnode

/-- A hidden directory in it has a valid name. -/
theorem Walkable.valid_name (h : Walkable t path place)
    (hnode : t.node? (place ++ [name]) = some (.directory access)) (hhidden : IsHidden name) :
    (textOf? name).isSome = true := by
  rw [← List.append_nil place] at hnode
  exact h.valid hnode hhidden

/-- Below a place that can be walked, every directory can be. -/
theorem Walkable.join (h : Walkable t path place) (name : OsText) :
    Walkable t (joinPath path name) (place ++ [name]) where
  allowed {below access} hnode := by
    rw [List.append_assoc] at hnode
    exact h.allowed hnode
  short {below access} hnode := by
    rw [List.append_assoc] at hnode
    exact h.short hnode
  valid {below name' access} hnode := by
    rw [List.append_assoc place] at hnode
    exact h.valid hnode

/-- A single name leads to a source file if it is that of one. -/
theorem isSource_singleton : IsSource t place [name] ↔
    (∃ node, t.node? (place ++ [name]) = some node ∧ ∀ access, node ≠ .directory access) ∧
      ∃ stem, name = stem ++ utf8 ".sim" ∧ stem ≠ [] := by
  constructor
  · rintro ⟨⟨front, stem, hname, hstem⟩, hfile, -⟩
    rw [← List.nil_append [name]] at hname
    obtain ⟨-, hlast⟩ := List.append_inj' hname rfl
    exact ⟨hfile, stem, (List.cons.inj hlast).1, hstem⟩
  · rintro ⟨hfile, stem, rfl, hstem⟩
    exact ⟨⟨[], stem, rfl, hstem⟩, hfile, by simp⟩

/-- Several names lead to a source file if the first one does not lead into a directory that is
passed over. -/
theorem isSource_cons (hbelow : below ≠ []) : IsSource t place (name :: below) ↔
    (¬ IsHidden name ∧ name ≠ utf8 "target") ∧ IsSource t (place ++ [name]) below := by
  have hplace : place ++ name :: below = place ++ [name] ++ below := by simp
  have hdropLast : (name :: below).dropLast = name :: below.dropLast :=
    List.dropLast_cons_of_ne_nil hbelow
  constructor
  · rintro ⟨⟨front, stem, hlast, hstem⟩, hfile, hskipped⟩
    rw [hplace] at hfile
    rw [hdropLast, List.forall_mem_cons] at hskipped
    refine ⟨hskipped.1, ?_, hfile, hskipped.2⟩
    cases front with
    | nil => exact absurd (List.cons.inj hlast).2 hbelow
    | cons first front => exact ⟨front, stem, (List.cons.inj hlast).2, hstem⟩
  · rintro ⟨hskip, ⟨front, stem, rfl, hstem⟩, hfile, hskipped⟩
    rw [← hplace] at hfile
    refine ⟨⟨name :: front, stem, rfl, hstem⟩, hfile, ?_⟩
    rw [hdropLast, List.forall_mem_cons]
    exact ⟨hskip, hskipped⟩

/-- What is collected has a name below its directory. -/
theorem Collected.ne_nil (h : Collected t path place below) : below ≠ [] := by
  cases h <;> exact List.cons_ne_nil _ _

/-- What is collected below a place stands below a directory there. -/
theorem Collected.exists_directory (h : Collected t path place below) :
    ∃ access, t.node? place = some (.directory access) := by
  cases h with
  | file directory => exact ⟨_, directory⟩
  | inside directory => exact ⟨_, directory⟩

/-- The names lead down to something in the tree. -/
theorem Collected.exists_node (h : Collected t path place below) :
    ∃ node, t.node? (place ++ below) = some node := by
  induction h with
  | file _ _ node_eq => exact ⟨_, node_eq⟩
  | inside _ _ _ _ _ _ _ _ ih =>
    rw [List.append_assoc] at ih
    exact ih

/-- Where every directory can be walked, a single name is collected if it is that of a file. -/
theorem Walkable.collected_singleton (h : Walkable t path place) (hplain : t.Plain) :
    Collected t path place [name] ↔
      (∃ node, t.node? (place ++ [name]) = some node ∧ ∀ access, node ≠ .directory access) ∧
        ∃ stem, name = stem ++ utf8 ".sim" ∧ stem ≠ [] := by
  constructor
  · intro hcollected
    cases hcollected with
    | file directory _ node_eq unseen extension =>
      refine ⟨⟨_, node_eq, ?_⟩, extension⟩
      rintro access' rfl
      rcases unseen ⟨access', rfl⟩ with hsearch | hlong
      · rw [(h.here directory).2] at hsearch
        nomatch hsearch
      · exact absurd (h.short node_eq) (Nat.not_lt.2 hlong)
    | inside _ _ _ _ _ _ _ others => exact absurd rfl others.ne_nil
  · rintro ⟨⟨node, hnode, hfile⟩, hextension⟩
    obtain ⟨access, hplace⟩ := hplain.node?_of_append (List.cons_ne_nil name []) hnode
    exact .file hplace (h.here hplace).1 hnode
      (fun ⟨access', heq⟩ => absurd heq (hfile access')) hextension

/-- Where every directory can be walked, only what is passed over is not walked. -/
theorem Walkable.collected_cons (h : Walkable t path place) (hplain : t.Plain)
    (hbelow : below ≠ []) :
    Collected t path place (name :: below) ↔
      (¬ IsHidden name ∧ name ≠ utf8 "target") ∧
        Collected t (joinPath path name) (place ++ [name]) below := by
  constructor
  · intro hcollected
    cases hcollected with
    | file => exact absurd rfl hbelow
    | inside _ _ node_eq _ _ walked other others =>
      exact ⟨⟨fun hhidden => walked (h.valid_name node_eq hhidden) hhidden, other⟩, others⟩
  · rintro ⟨⟨hhidden, hother⟩, hcollected⟩
    obtain ⟨access', hnode⟩ := hcollected.exists_directory
    obtain ⟨access, hplace⟩ := hplain.node?_of_append (List.cons_ne_nil name []) hnode
    exact .inside hplace (h.here hplace).1 hnode (h.here hplace).2 (h.short hnode)
      (fun _ => hhidden) hother hcollected

/-- Where every directory can be walked, what is collected are the source files. -/
theorem collected_iff_isSource (hplain : t.Plain) (h : Walkable t path place) :
    Collected t path place below ↔ IsSource t place below := by
  induction below generalizing path place with
  | nil =>
    refine iff_of_false (fun hcollected => hcollected.ne_nil rfl) fun hsource => ?_
    obtain ⟨front, stem, hnil, -⟩ := hsource.source
    simp at hnil
  | cons name below ih =>
    by_cases hbelow : below = []
    · subst hbelow
      rw [h.collected_singleton hplain, isSource_singleton]
    · rw [h.collected_cons hplain hbelow, isSource_cons hbelow, ih (h.join name)]

/-! ## Collecting -/

/-- A tree lists every name once. -/
theorem listsOnce_view (hplain : t.Plain) : ListsOnce t.view := by
  intro path entries hlist
  change (FileView.answer t.list path).map _ = _ at hlist
  cases hanswer : FileView.answer t.list path with
  | error e =>
    rw [hanswer] at hlist
    cases hlist
  | ok names =>
    rw [hanswer] at hlist
    obtain rfl := Except.ok.inj hlist
    have hread : ∀ names : List OsText, readNames (names.map Except.ok) = names := fun names => by
      rw [readNames, List.filterMap_map]
      exact List.filterMap_some
    rw [hread]
    rw [FileView.answer_of_none (FileView.pathFault?_of_answer hanswer), FileTree.list] at hanswer
    split at hanswer
    · cases hanswer
    · split at hanswer
      · obtain rfl := Except.ok.inj hanswer
        exact (FileTree.nodup_names hplain.distinct).filter _
      · cases hanswer
    · cases hanswer

/-- Different names lead down to different paths. -/
theorem nodup_map_pathBelow {found : List (List OsText)} (hpath : path ≠ [])
    (hfound : found.Pairwise PathBefore) (hnames : ∀ below ∈ found, ∀ name ∈ below, IsName name) :
    (found.map (pathBelow path)).Nodup := by
  refine List.Nodup.map_on (fun below hbelow below' hbelow' heq => ?_) (hfound.imp PathBefore.ne)
  have hparts := congrArg pathParts heq
  rw [pathParts_pathBelow hpath (hnames below hbelow),
    pathParts_pathBelow hpath (hnames below' hbelow')] at hparts
  exact List.append_cancel_left hparts

/-- A directory stands for what is to be collected below it, in order. -/
theorem exists_collected (hplain : t.Plain) (h : t.Leads path place access) :
    ∃ found : List (List OsText), collect t.view path = found.map (pathBelow path) ∧
      (∀ below, below ∈ found ↔ Collected t path place below) ∧ found.Pairwise PathBefore := by
  have hfile : ¬ t.view.isFile path = true := fun hfile =>
    not_isDirectory_of_isFile hfile h.isDirectory
  obtain ⟨found, hcollect, hfound, hordered⟩ := exists_found t.view hfile
  exact ⟨found, hcollect, fun below => (hfound below).trans (found_iff_collected hplain h),
    hordered (listsOnce_view hplain)⟩

/-- What some names lead down to is collected if it is to be. -/
theorem mem_collect_iff (hplain : t.Plain) (h : t.Leads path place access)
    (hnames : ∀ name ∈ below, IsName name) :
    pathBelow path below ∈ collect t.view path ↔ Collected t path place below := by
  obtain ⟨found, hcollect, hexact, -⟩ := exists_collected hplain h
  rw [hcollect, ← hexact, List.mem_map]
  constructor
  · rintro ⟨below', hbelow', heq⟩
    obtain ⟨node, hnode⟩ := ((hexact below').1 hbelow').exists_node
    have hparts := congrArg pathParts heq
    rw [pathParts_pathBelow h.ne_nil hnames,
      pathParts_pathBelow h.ne_nil (hplain.isName_of_append hnode)] at hparts
    rwa [← List.append_cancel_left hparts]
  · exact fun hbelow => ⟨below, hbelow, rfl⟩

/-- What collecting at a path comes to. -/
structure Collects (t : FileTree) (path : OsText) : Prop where
  /-- A file stands for itself, whatever its name. -/
  file : t.view.isFile path = true → collect t.view path = [path]
  /-- A directory stands at some place of the tree. -/
  leads : t.view.isDirectory path = true → ∃ place access, t.Leads path place access
  /-- It stands for what is to be collected below it: exactly that, each of it once, in the order of
  the names that lead down.  Where every directory can be walked, these are the source files. -/
  directory : ∀ {place access}, t.Leads path place access → ∃ found : List (List OsText),
    collect t.view path = found.map (pathBelow path) ∧
      (∀ below, below ∈ found ↔ Collected t path place below) ∧
      found.Pairwise PathBefore ∧ (collect t.view path).Nodup ∧
      (Walkable t path place → ∀ below, below ∈ found ↔ IsSource t place below)
  /-- Nothing else stands for anything. -/
  nothing : t.view.isFile path = false → t.view.isDirectory path = false → collect t.view path = []

/-- **What a path stands for, in a tree without links.** -/
theorem collect_exactly (t : FileTree) (hplain : t.Plain) (path : OsText) : Collects t path where
  file := collect_of_isFile
  leads := FileTree.exists_leads
  directory {place access} hleads := by
    obtain ⟨found, hcollect, hexact, hincreasing⟩ := exists_collected hplain hleads
    refine ⟨found, hcollect, hexact, hincreasing, ?_, fun hwalkable below => ?_⟩
    · rw [hcollect]
      refine nodup_map_pathBelow hleads.ne_nil hincreasing fun below hbelow => ?_
      obtain ⟨node, hnode⟩ := ((hexact below).1 hbelow).exists_node
      exact hplain.isName_of_append hnode
    · exact (hexact below).trans (collected_iff_isSource hplain hwalkable)
  nothing hfile hdirectory := by
    rw [collect_eq, hfile, hdirectory]
    rfl

/-- A small tree with a hidden directory. -/
def smallTree : FileTree where
  nodes := [([utf8 "d"], .directory ⟨true, true⟩),
    ([utf8 "d", utf8 "n"], .directory ⟨true, true⟩),
    ([utf8 "d", utf8 "n", utf8 ".a.sim"], .file (.ok ⟨[], none⟩)),
    ([utf8 "d", utf8 ".h"], .directory ⟨true, true⟩),
    ([utf8 "d", utf8 ".h", utf8 "c.sim"], .file (.ok ⟨[], none⟩))]
  home := []

/-- The small tree is one without links. -/
theorem smallTree_plain : smallTree.Plain where
  named := by decide
  unlinked := by simp [smallTree]
  housed := by
    simp only [smallTree, List.forall_mem_cons]
    exact ⟨⟨_, rfl⟩, ⟨_, rfl⟩, ⟨_, rfl⟩, ⟨_, rfl⟩, ⟨_, rfl⟩, fun _ hmem => nomatch hmem⟩
  distinct := by decide

/-- The directories of the small tree. -/
theorem smallTree_directories {below : List OsText} {access : Access}
    (h : smallTree.node? ([utf8 "d"] ++ below) = some (.directory access)) :
    access = ⟨true, true⟩ ∧ (below = [] ∨ below = [utf8 "n"] ∨ below = [utf8 ".h"]) := by
  have hmem := FileTree.mem_of_lookup h
  simp only [smallTree, List.mem_cons, Prod.mk.injEq, List.singleton_append, List.cons.injEq,
    true_and, Node.directory.injEq, reduceCtorEq, and_false, List.not_mem_nil, false_or,
    or_false] at hmem
  tauto

/-- All directories of the small tree can be walked. -/
theorem smallTree_walkable : Walkable smallTree (utf8 "d") [utf8 "d"] where
  allowed hnode := by
    obtain ⟨rfl, -⟩ := smallTree_directories hnode
    exact ⟨rfl, rfl⟩
  short hnode := by
    obtain ⟨-, rfl | rfl | rfl⟩ := smallTree_directories hnode <;> decide
  valid {below name access} hnode _ := by
    rw [List.append_assoc] at hnode
    obtain ⟨text, rfl⟩ : ∃ text, name = utf8 text := by
      have hlast := List.getLast?_concat (l := below) (a := name)
      obtain ⟨-, hbelow | hbelow | hbelow⟩ := smallTree_directories hnode <;> rw [hbelow] at hlast
      · nomatch hlast
      · exact ⟨"n", (Option.some.inj hlast).symm⟩
      · exact ⟨".h", (Option.some.inj hlast).symm⟩
    rw [textOf?_eq_some_iff.2 rfl]
    rfl

/-- A hidden file is collected, and a file in a hidden directory is not. -/
theorem collect_smallTree :
    smallTree.Plain ∧ smallTree.Leads (utf8 "d") [utf8 "d"] ⟨true, true⟩ ∧
      Walkable smallTree (utf8 "d") [utf8 "d"] ∧
      utf8 "d/n/.a.sim" ∈ collect smallTree.view (utf8 "d") ∧
      utf8 "d/.h/c.sim" ∉ collect smallTree.view (utf8 "d") := by
  have hleads : smallTree.Leads (utf8 "d") [utf8 "d"] ⟨true, true⟩ := ⟨rfl, rfl, rfl⟩
  obtain ⟨found, hcollect, -, -, -, hsource⟩ :=
    (collect_exactly _ smallTree_plain (utf8 "d")).directory hleads
  refine ⟨smallTree_plain, hleads, smallTree_walkable, ?_, ?_⟩
  · have hbelow : [utf8 "n", utf8 ".a.sim"] ∈ found :=
      (hsource smallTree_walkable _).2
        ⟨⟨[utf8 "n"], utf8 ".a", rfl, by decide⟩, ⟨_, rfl, by simp⟩, by decide⟩
    rw [hcollect]
    exact List.mem_map.2 ⟨_, hbelow, rfl⟩
  · intro hmem
    have hcollected : Collected smallTree (utf8 "d") [utf8 "d"] [utf8 ".h", utf8 "c.sim"] :=
      (mem_collect_iff smallTree_plain hleads (by decide)).1 hmem
    have hskipped := ((collected_iff_isSource smallTree_plain smallTree_walkable).1
      hcollected).not_skipped
    exact absurd rfl (hskipped (utf8 ".h") List.mem_cons_self).1

/-! ## Where a directory is not seen to be one -/

/-- A tree with a directory that has the name of a source file. -/
def sourceNamedTree : FileTree where
  nodes := [([utf8 "d"], .directory ⟨true, true⟩),
    ([utf8 "d", utf8 "x.sim"], .directory ⟨true, true⟩),
    ([utf8 "d", utf8 "x.sim", utf8 "a.sim"], .file (.ok ⟨[], none⟩))]
  home := []

/-- The tree is one without links. -/
theorem sourceNamedTree_plain : sourceNamedTree.Plain where
  named := by decide
  unlinked := by simp [sourceNamedTree]
  housed := by
    simp only [sourceNamedTree, List.forall_mem_cons]
    exact ⟨⟨_, rfl⟩, ⟨_, rfl⟩, ⟨_, rfl⟩, fun _ hmem => nomatch hmem⟩
  distinct := by decide

/-- The path of a directory, with slashes behind its name. -/
def slashedPath (slashes : Nat) : OsText := utf8 "d" ++ List.replicate slashes slash

/-- Each slash counts as a byte. -/
theorem length_slashedPath (n : Nat) : (slashedPath n).length = n + 1 := by
  rw [slashedPath, List.length_append, List.length_replicate, Nat.add_comm]
  rfl

/-- There is no name between two slashes. -/
theorem pathParts_slashedPath (n : Nat) : pathParts (slashedPath n) = [utf8 "d"] := by
  have hsplit (n : Nat) : splitSlashes (List.replicate n slash) = List.replicate (n + 1) [] := by
    induction n with
    | zero => rfl
    | succ n ih =>
      rw [List.replicate_succ, splitSlashes, if_pos rfl, ih]
      rfl
  cases n with
  | zero => rfl
  | succ n =>
    rw [pathParts, slashedPath, List.replicate_succ, splitSlashes_append, hsplit,
      List.filter_append, List.filter_replicate]
    rfl

/-- However many slashes there are, the path names the directory until it is too long. -/
theorem slashedPath_leads {n : Nat} (hsize : n + 2 < maxPathSize) :
    sourceNamedTree.Leads (slashedPath (n + 1)) [utf8 "d"] ⟨true, true⟩ where
  fault_eq := by
    have hnul : 0 ∉ slashedPath (n + 1) := by
      have hslash : (0 : UInt8) ≠ slash := by decide
      have hname : 0 ∉ utf8 "d" := by decide
      simp [slashedPath, hslash, hname]
    have hne : slashedPath (n + 1) ≠ [] := by
      simp [slashedPath]
    rw [pathFault?, if_neg hnul, if_neg hne, length_slashedPath, if_neg (Nat.not_le.2 hsize)]
  resolve_eq := by
    have hlast : (slashedPath (n + 1)).getLast? = some slash := by
      rw [slashedPath, List.replicate_succ', ← List.append_assoc, List.getLast?_concat]
    have hnames : pathNames (slashedPath (n + 1)) = [utf8 "d", []] := by
      have hparts : pathNames (slashedPath (n + 1)) = pathParts (slashedPath (n + 1)) ++ [[]] :=
        if_pos hlast
      rw [hparts, pathParts_slashedPath]
      rfl
    have hstart : sourceNamedTree.start (slashedPath (n + 1)) = [] := ite_self _
    rw [FileTree.resolve, hstart, hnames]
    rfl
  node_eq := rfl

/-- A directory whose path is too long is collected for its name, and what is in it is not found. -/
theorem overlong_directory_collected :
    IsSource sourceNamedTree [utf8 "d"] [utf8 "x.sim", utf8 "a.sim"] ∧
      sourceNamedTree.node? [utf8 "d", utf8 "x.sim"] = some (.directory ⟨true, true⟩) ∧
      pathBelow (slashedPath 4094) [utf8 "x.sim"] ∈
        collect sourceNamedTree.view (slashedPath 4094) ∧
      pathBelow (slashedPath 4094) [utf8 "x.sim", utf8 "a.sim"] ∉
        collect sourceNamedTree.view (slashedPath 4094) := by
  have hleads := slashedPath_leads (n := 4093) (by decide)
  have hlong : maxPathSize ≤ (joinPath (slashedPath 4094) (utf8 "x.sim")).length := by
    have hne : utf8 "x.sim" ≠ [] := by decide
    have hlonger := length_lt_joinPath (slashedPath 4094) hne
    rwa [length_slashedPath] at hlonger
  refine ⟨⟨⟨[utf8 "x.sim"], utf8 "a", rfl, by decide⟩, ⟨_, rfl, by simp⟩, by decide⟩, rfl, ?_, ?_⟩
  · rw [mem_collect_iff sourceNamedTree_plain hleads (by decide)]
    exact .file rfl rfl rfl (fun _ => .inr hlong) ⟨utf8 "x", rfl, by decide⟩
  · rw [mem_collect_iff sourceNamedTree_plain hleads (by decide)]
    intro hcollected
    cases hcollected with
    | inside _ _ _ _ short => exact absurd short (Nat.not_lt.2 hlong)

/-- A tree with a hidden directory whose name is not valid as a text. -/
def hiddenTree : FileTree where
  nodes := [([utf8 "d"], .directory ⟨true, true⟩),
    ([utf8 "d", [dot, 0xFF]], .directory ⟨true, true⟩),
    ([utf8 "d", [dot, 0xFF], utf8 "a.sim"], .file (.ok ⟨[], none⟩))]
  home := []

/-- The tree is one without links. -/
theorem hiddenTree_plain : hiddenTree.Plain where
  named := by decide
  unlinked := by simp [hiddenTree]
  housed := by
    simp only [hiddenTree, List.forall_mem_cons]
    exact ⟨⟨_, rfl⟩, ⟨_, rfl⟩, ⟨_, rfl⟩, fun _ hmem => nomatch hmem⟩
  distinct := by decide

/-- The path leads to the directory around the hidden one. -/
theorem hiddenTree_leads : hiddenTree.Leads (utf8 "d") [utf8 "d"] ⟨true, true⟩ := ⟨rfl, rfl, rfl⟩

/-- A byte that begins no character is in no text: what is shown for it has other bytes. -/
theorem textOf?_hidden : textOf? [dot, 0xFF] = none := by
  cases htext : textOf? [dot, 0xFF] with
  | none => rfl
  | some text =>
    have hname := textOf?_eq_some_iff.1 htext
    have hshown : display [dot, 0xFF] = text := by rw [hname, display_utf8]
    rw [← hshown] at hname
    exact absurd hname (by decide)

/-- A hidden directory is walked if its name is not valid. -/
theorem hidden_directory_walked :
    IsHidden [dot, 0xFF] ∧
      hiddenTree.node? [utf8 "d", [dot, 0xFF]] = some (.directory ⟨true, true⟩) ∧
      ¬ IsSource hiddenTree [utf8 "d"] [[dot, 0xFF], utf8 "a.sim"] ∧
      pathBelow (utf8 "d") [[dot, 0xFF], utf8 "a.sim"] ∈ collect hiddenTree.view (utf8 "d") := by
  refine ⟨rfl, rfl, fun hsource => ?_, ?_⟩
  · exact (hsource.not_skipped [dot, 0xFF] List.mem_cons_self).1 rfl
  · rw [mem_collect_iff hiddenTree_plain hiddenTree_leads (by decide)]
    exact .inside rfl rfl rfl rfl (by decide) (fun hvalid => by simp [textOf?_hidden] at hvalid)
      (by decide) (.file rfl rfl rfl (fun ⟨_, heq⟩ => nomatch heq) ⟨utf8 "a", rfl, by decide⟩)

end Command

end SinglePass
