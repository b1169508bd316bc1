import TreePlan.Proofs.Discipline.Account
import TreePlan.Proofs.Names
import TreePlan.Proofs.Recursion

/-!
# What a walk asks, and when

A walk does not trust its file system: the answers may change from one question to the next. So it
asks each question once, and remembers what it was told for as long as it needs it. This is said of
its account, with an entry for each exchange.

* `disciplined_visit`: every visit has an account in which each entry is justified, whatever is
  replied. The visit is only to know that nothing happened yet at its place or below it; it leaves
  nothing behind anywhere else.
* `walk_asks_once` says of every run what follows for the texts of the paths.
-/

namespace TreePlan

section
variable {rules : Rules} {root : Pair} {past : List Entry} {rel : List Name} {side : Side}
  {kind source destination : Kind} {name : Name} {action : Action}

/-! ## The parts of a visit -/

/-- Whatever is replied, there is an account of the dialogue with justified entries. -/
abbrev Disciplined (rules : Rules) (root : Pair) {α : Type} (Q : List Entry → α → Prop)
    (past : List Entry) (d : Dialogue α) : Prop :=
  Dialogue.Accounts (Entry.IsFor root) (Justified rules) Q past d

open Dialogue

theorem disciplined_request (r : Request) (deed : Except Failure r.Reply → Deed)
    (hfor : ∀ result, Entry.IsFor root ⟨rel, deed result⟩ ⟨r, result⟩)
    (hjustified : ∀ result, Justified rules past ⟨rel, deed result⟩) :
    Disciplined rules root (fun after reply => after = past ++ [⟨rel, deed (.ok reply)⟩]) past
      (request r) :=
  .request (fun result => ⟨rel, deed result⟩) hfor hjustified fun _ => rfl

theorem disciplined_requireText (path : Path) :
    Disciplined rules root (fun after _ => after = past) past (Walk.requireText path) := by
  unfold Walk.requireText
  split
  · exact .done rfl
  · exact .fail _

theorem disciplined_kindAt {gone : Bool} (hlook : gone = false → MayLook rules past side rel)
    (hnew : Untouched past side rel) :
    Disciplined rules root
      (fun after kind => Known after side rel kind ∧
        Grown (fun entry => ∃ result, entry = ⟨rel, .classified side result⟩) past after)
      past (Walk.kindAt gone ((root.below rel).on side)) := by
  cases gone with
  | true => exact .done ⟨.inr ⟨rfl, fun _ => hnew.classified_notMem⟩, .refl past⟩
  | false =>
      have hasked : Disciplined rules root _ past (classify ((root.below rel).on side)) :=
        disciplined_request (.ask (.classify _)) (.classified side) (.classified rel side)
          fun _ => ⟨hnew, hlook rfl⟩
      refine hasked.mono ?_
      rintro _ kind rfl
      exact ⟨.inl (List.mem_append_right past (List.mem_singleton_self _)), .single ⟨_, rfl⟩⟩

theorem disciplined_entriesAt (side : Side) (hknown : Known past side rel kind)
    (hnew : ∀ result, ⟨rel, .listed side result⟩ ∉ past)
    (hbelow : ∀ entry ∈ past, rel <+: entry.rel → entry.rel = rel) :
    Disciplined rules root
      (fun after names => (∀ name ∈ names, Told after rel name) ∧
        Grown (fun entry => ∃ result, entry = ⟨rel, .listed side result⟩) past after)
      past (Walk.entriesAt kind ((root.below rel).on side)) := by
  unfold Walk.entriesAt
  split
  · next hdirectory =>
    subst hdirectory
    have hclassified := hknown.classified nofun
    have hasked : Disciplined rules root _ past (list ((root.below rel).on side)) :=
      disciplined_request (.ask (.list _)) (.listed side) (.listed rel side)
        fun _ => ⟨hnew, hclassified, hbelow⟩
    refine hasked.mono ?_
    rintro _ names rfl
    refine ⟨fun name hname => ⟨side, names, ?_, hname⟩, .single ⟨_, rfl⟩⟩
    exact List.mem_append_right past (List.mem_singleton_self _)
  · exact .done ⟨List.forall_mem_nil _, .refl past⟩

/-- Where nothing came of a `recurse` yet, nothing was listed, and nothing happened further down. -/
theorem of_not_by_recurse (h : ∀ entry ∈ past, ¬ entry.By rel .recurse) :
    (∀ side result, ⟨rel, .listed side result⟩ ∉ past) ∧
      ∀ entry ∈ past, rel <+: entry.rel → entry.rel = rel := by
  refine ⟨fun side result hmem => h _ hmem (.listed side result), ?_⟩
  rintro entry hentry ⟨_ | ⟨name, rest⟩, hrest⟩
  · rw [← hrest, List.append_nil]
  · exact absurd (.below name ⟨rest, by simpa using hrest⟩) (h entry hentry)

theorem disciplined_childNames (hkinds : PairKnown past rel source destination)
    (hfresh : ∀ entry ∈ past, ¬ entry.By rel .recurse) :
    Disciplined rules root
      (fun after names => (names.Nodup ∧
          ∀ name ∈ names, name ∉ rules.metadataNames ∧ Told after rel name) ∧
        Grown (fun entry => ∃ side result, entry = ⟨rel, .listed side result⟩) past after)
      past (Walk.childNames rules (root.below rel) source destination) := by
  obtain ⟨hnew, hbelow⟩ := of_not_by_recurse hfresh
  have hfirst : Disciplined rules root _ past (Walk.entriesAt source (root.below rel).source) :=
    disciplined_entriesAt .source hkinds.source (hnew .source) hbelow
  refine hfirst.bind ?_
  rintro mid inSource ⟨htold, hmid⟩
  -- The listing of the source is behind, that of the destination still to come.
  have hknown : Known mid .destination rel destination :=
    hmid.known hkinds.destination fun _ ⟨_, h⟩ => by cases h
  have hnew' : ∀ result, ⟨rel, .listed .destination result⟩ ∉ mid := by
    intro result hmem
    rcases hmid.mem_or hmem with hpast | ⟨_, h⟩
    · exact hnew .destination result hpast
    · cases h
  have hbelow' : ∀ entry ∈ mid, rel <+: entry.rel → entry.rel = rel := by
    intro entry hentry
    rcases hmid.mem_or hentry with hpast | ⟨_, rfl⟩
    · exact hbelow entry hpast
    · exact fun _ => rfl
  have hsecond : Disciplined rules root _ mid
      (Walk.entriesAt destination (root.below rel).destination) :=
    disciplined_entriesAt .destination hknown hnew' hbelow'
  refine hsecond.bind ?_
  rintro after inDestination ⟨htold', hafter⟩
  refine .done ⟨⟨nodup_nameSet _, fun name hname => ?_⟩, ?_⟩
  · obtain ⟨hmem, hvisible⟩ := Walk.mem_visible.mp hname
    refine ⟨hvisible, (List.mem_append.mp hmem).elim (fun h => ?_) (htold' name)⟩
    exact hafter.told (htold name h)
  · refine (hmid.mono ?_).trans (hafter.mono ?_)
    · exact fun _ ⟨result, h⟩ => ⟨.source, result, h⟩
    · exact fun _ ⟨result, h⟩ => ⟨.destination, result, h⟩

/-- A request by which an action of the row is taken. -/
theorem disciplined_take (hkinds : PairKnown past rel source destination)
    (hmem : action ∈ policy source destination) {r : Request}
    (hr : action.TakenBy (root.below rel) source destination r) :
    Disciplined rules root (fun after _ => Grown (Entry.By rel action) past after) past
      (request r) := by
  have htaken : Disciplined rules root _ past (request r) :=
    disciplined_request r (fun _ => .took source destination action) (.took rel hr)
      fun _ => ⟨hkinds, hmem⟩
  refine htaken.mono ?_
  rintro _ _ rfl
  exact .single (.took source destination action)

/-! ## Visits -/

/-- A visit of a place where nothing happened yet is disciplined, and it leaves the others alone:
nothing happens but at the place and further down. -/
def VisitsDisciplined (rules : Rules) (root : Pair) (below : Pair → Bool → Bool → Dialogue Unit) :
    Prop :=
  ∀ past rel sourceGone destinationGone,
    (sourceGone = false → MayLook rules past .source rel) →
    (destinationGone = false → MayLook rules past .destination rel) →
    (∀ entry ∈ past, ¬ rel <+: entry.rel) →
    Disciplined rules root (fun after _ => Grown (fun entry => rel <+: entry.rel) past after) past
      (below (root.below rel) sourceGone destinationGone)

section
variable {below : Pair → Bool → Bool → Dialogue Unit}

theorem mayLook_child (hknown : Known past side rel kind) (hvisible : name ∉ rules.metadataNames)
    (htold : Told past rel name) (hgone : (kind != .directory) = false) :
    MayLook rules past side (rel ++ [name]) := by
  obtain rfl : kind = .directory := bne_eq_false_iff_eq.mp hgone
  exact .inr ⟨rel, name, rfl, hvisible, hknown.classified nofun, htold⟩

/-- The visits of the children, one after another, do not get into each other's way. -/
theorem disciplined_children (hbelow : VisitsDisciplined rules root below) {names : List Name}
    (hkinds : PairKnown past rel source destination) (hnodup : names.Nodup)
    (htold : ∀ name ∈ names, name ∉ rules.metadataNames ∧ Told past rel name)
    (hfresh : ∀ name ∈ names, ∀ entry ∈ past, ¬ rel ++ [name] <+: entry.rel) :
    Disciplined rules root
      (fun after _ => Grown (fun entry => ∃ name, rel ++ [name] <+: entry.rel) past after) past
      (forM names fun name => below ((root.below rel).child name) (source != .directory)
        (destination != .directory)) := by
  -- Each child adds its own entries to `past`.
  induction names generalizing past with
  | nil => exact .done (.refl past)
  | cons name names ih =>
      obtain ⟨hnotMem, hnodup⟩ := List.nodup_cons.mp hnodup
      obtain ⟨⟨hvisible, hname⟩, htold⟩ := List.forall_mem_cons.mp htold
      obtain ⟨hnothing, hfresh⟩ := List.forall_mem_cons.mp hfresh
      have hchild := hbelow past (rel ++ [name]) (source != .directory) (destination != .directory)
        (mayLook_child hkinds.source hvisible hname)
        (mayLook_child hkinds.destination hvisible hname) hnothing
      rw [Pair.below_concat] at hchild
      rw [List.forM_cons]
      refine hchild.bind fun after _ hafter => ?_
      have hnot : ∀ side result,
          ¬ rel ++ [name] <+: (⟨rel, .classified side result⟩ : Entry).rel :=
        fun _ _ => not_child_above
      refine (ih (hafter.pairKnown hkinds hnot) hnodup
        (fun other hother => (htold other hother).imp_right hafter.told) ?_).mono ?_
      · -- what is new is below `name`, so the other children are as they were
        intro other hother entry hentry hpart
        rcases hafter.mem_or hentry with hpast | hnew
        · exact hfresh other hother entry hpast hpart
        · -- Both children have names of one length, so below one is not below the other.
          obtain heq := List.append_cancel_left
            ((List.prefix_of_prefix_length_le hnew hpart (by simp)).eq_of_length (by simp))
          exact hnotMem (List.singleton_inj.mp heq ▸ hother)
      · intro final _ hfinal
        exact (hafter.mono fun _ h => ⟨name, h⟩).trans hfinal

/-- How far a row was taken: the kinds are known, and nothing came of the actions that are left. -/
structure RowLeft (past : List Entry) (rel : List Name) (source destination : Kind)
    (actions : List Action) : Prop where
  kinds : PairKnown past rel source destination
  subset : ∀ action ∈ actions, action ∈ policy source destination
  nodup : actions.Nodup
  fresh : ∀ action ∈ actions, ∀ entry ∈ past, ¬ entry.By rel action

theorem RowLeft.tail {actions : List Action} {after : List Entry}
    (h : RowLeft past rel source destination (action :: actions))
    (hgrown : Grown (Entry.By rel action) past after) :
    RowLeft after rel source destination actions where
  kinds := hgrown.pairKnown h.kinds fun _ _ => Entry.By.not_classified
  subset other hother := h.subset other (List.mem_cons_of_mem action hother)
  nodup := (List.nodup_cons.mp h.nodup).2
  fresh other hother entry hentry hby := by
    rcases hgrown.mem_or hentry with hpast | hnew
    · exact h.fresh other (List.mem_cons_of_mem action hother) entry hpast hby
    · exact (List.nodup_cons.mp h.nodup).1 (hnew.eq hby ▸ hother)

theorem disciplined_act (hbelow : VisitsDisciplined rules root below) {actions : List Action}
    (h : RowLeft past rel source destination (action :: actions)) :
    Disciplined rules root (fun after _ => Grown (Entry.By rel action) past after) past
      (Recursive.act rules below (root.below rel) source destination action) := by
  have hmem := h.subset action List.mem_cons_self
  have hfresh := h.fresh action List.mem_cons_self
  cases action with
  | remove => exact disciplined_take h.kinds hmem .remove
  | copy => exact disciplined_take h.kinds hmem .copy
  | mkdir => exact disciplined_take h.kinds hmem .mkdir
  | queueAdd => exact disciplined_take h.kinds hmem .queueAdd
  | queueDelete => exact disciplined_take h.kinds hmem .queueDelete
  | flagConflict =>
      have hlogged : Disciplined rules root _ past
          (log (.typeConflict source destination (root.below rel).destination)) :=
        disciplined_take h.kinds hmem .typeConflict
      refine hlogged.bind fun mid _ hmid => ?_
      have hkinds := hmid.pairKnown h.kinds fun _ _ => Entry.By.not_classified
      have hnoted : Disciplined rules root _ mid (note .conflict) :=
        disciplined_take hkinds hmem .conflict
      exact hnoted.mono fun _ _ => hmid.trans
  | copyIfDifferent =>
      obtain ⟨rfl, rfl⟩ := (copyIfDifferent_mem_policy_iff source destination).mp hmem
      -- Both sides were looked at: `missing` is the one kind that may be assumed.
      have hfiles : ∀ side, ⟨rel, .classified side (.ok .file)⟩ ∈ past := by
        intro side
        cases side with
        | source => exact h.kinds.source.classified nofun
        | destination => exact h.kinds.destination.classified nofun
      have hasked : Disciplined rules root _ past
          (same (root.below rel).source (root.below rel).destination) :=
        disciplined_request (.ask (.same _ _)) .compared (.compared rel)
          fun _ => ⟨fun other hother => hfresh _ hother (.compared other), hfiles⟩
      refine hasked.bind ?_
      rintro _ equal rfl
      have hmid : Grown (Entry.By rel .copyIfDifferent) past _ := .single (.compared (.ok equal))
      cases equal with
      | true => exact .done hmid
      | false =>
          have hkinds := hmid.pairKnown h.kinds fun _ _ => Entry.By.not_classified
          have hcopied : Disciplined rules root _ _
              (emit (.copy (root.below rel).source (root.below rel).destination)) :=
            disciplined_take hkinds hmem .copyIfDifferent
          exact hcopied.mono fun _ _ => hmid.trans
  | recurse =>
      refine (disciplined_childNames h.kinds hfresh).bind ?_
      rintro mid names ⟨⟨hnodup, hnames⟩, hmid⟩
      have hlisted : Grown (Entry.By rel .recurse) past mid :=
        hmid.mono fun _ ⟨side, result, h⟩ => h ▸ .listed side result
      have hkinds := hlisted.pairKnown h.kinds fun _ _ => Entry.By.not_classified
      refine (disciplined_children hbelow hkinds hnodup hnames ?_).mono fun after _ hafter => ?_
      · -- no child was touched before the row came to `recurse`
        intro name _ entry hentry hpart
        rcases hmid.mem_or hentry with hpast | ⟨_, _, rfl⟩
        · exact hfresh entry hpast (.below name hpart)
        · exact not_child_above hpart
      · exact hlisted.trans (hafter.mono fun _ ⟨name, h⟩ => .below name h)

theorem disciplined_row (hbelow : VisitsDisciplined rules root below) {actions : List Action}
    (h : RowLeft past rel source destination actions) :
    Disciplined rules root (fun after _ => Grown (fun entry => rel <+: entry.rel) past after) past
      (forM actions (Recursive.act rules below (root.below rel) source destination)) := by
  induction actions generalizing past with
  | nil => exact .done (.refl past)
  | cons action actions ih =>
      rw [List.forM_cons]
      refine (disciplined_act hbelow h).bind fun after _ hafter => ?_
      refine (ih (h.tail hafter)).mono fun final _ hfinal => ?_
      exact (hafter.mono fun _ => Entry.By.isPart).trans hfinal

end

/-- A row may be taken from its start on, when all that happened at its place is that the pair was
looked at. -/
theorem RowLeft.policy {opened : List Entry} (hnew : ∀ entry ∈ past, ¬ rel <+: entry.rel)
    (hopened : Grown (fun entry => ∀ action, ¬ entry.By rel action) past opened)
    (hkinds : PairKnown opened rel source destination) :
    RowLeft opened rel source destination (policy source destination) where
  kinds := hkinds
  subset _ := id
  nodup := nodup_policy source destination
  fresh action _ entry hentry hby := by
    rcases hopened.mem_or hentry with hpast | hnone
    · exact hnew entry hpast hby.isPart
    · exact hnone action hby

/-- **Every visit is disciplined**, to any depth. -/
theorem disciplined_visit (depth : Nat) :
    VisitsDisciplined rules root (Recursive.visit rules depth) := by
  induction depth with
  | zero => exact fun _ _ _ _ _ _ _ => .fail _
  | succ depth ih =>
      intro past rel sourceGone destinationGone hlook hlook' hnew
      rw [Recursive.visit]
      refine (disciplined_requireText _).bind ?_
      rintro _ _ rfl
      refine (disciplined_requireText _).bind ?_
      rintro past _ rfl
      have hsource : Disciplined rules root _ past
          (Walk.kindAt sourceGone (root.below rel).source) :=
        disciplined_kindAt hlook fun entry hmem hpart => absurd hpart (hnew entry hmem)
      refine hsource.bind ?_
      rintro one source ⟨hknown, hone⟩
      have huntouched : Untouched one .destination rel := by
        intro entry hmem hpart
        rcases hone.mem_or hmem with hpast | ⟨result, rfl⟩
        · exact absurd hpart (hnew entry hpast)
        · exact ⟨.source, result, Side.noConfusion, rfl⟩
      have hdestination : Disciplined rules root _ one
          (Walk.kindAt destinationGone (root.below rel).destination) :=
        disciplined_kindAt (fun hgone => hone.mayLook (hlook' hgone)) huntouched
      refine hdestination.bind ?_
      rintro two destination ⟨hknown', htwo⟩
      have hkinds : PairKnown two rel source destination := by
        refine ⟨htwo.known hknown ?_, hknown'⟩
        rintro _ ⟨_, heq⟩
        cases heq
      have hlogged : Disciplined rules root _ two
          (log (.visiting source destination (root.below rel))) :=
        disciplined_request (.log _) (fun _ => .visited source destination)
          (.visited rel source destination) fun _ => hkinds
      refine hlogged.bind ?_
      rintro _ _ rfl
      have hlast : Grown (· = ⟨rel, .visited source destination⟩) two _ := .single rfl
      -- None of these entries is owed to an action, so the whole row is left to do.
      have hopened : Grown (fun entry => rel <+: entry.rel ∧ ∀ action, ¬ entry.By rel action) past
          (two ++ [⟨rel, .visited source destination⟩]) := by
        refine ((hone.mono ?_).trans (htwo.mono ?_)).trans (hlast.mono ?_)
        · rintro _ ⟨_, rfl⟩
          exact ⟨List.prefix_rfl, fun _ => Entry.By.not_classified⟩
        · rintro _ ⟨_, rfl⟩
          exact ⟨List.prefix_rfl, fun _ => Entry.By.not_classified⟩
        · rintro _ rfl
          exact ⟨List.prefix_rfl, fun _ => Entry.By.not_visited⟩
      have hkinds' : PairKnown (two ++ [⟨rel, .visited source destination⟩]) rel source
          destination := by
        refine hlast.pairKnown hkinds ?_
        rintro _ _ heq
        cases heq
      have hrow := RowLeft.policy hnew (hopened.mono fun _ => And.right) hkinds'
      exact (disciplined_row ih hrow).mono fun _ _ hafter =>
        (hopened.mono fun _ => And.left).trans hafter

/-- **Every walk is disciplined.** -/
theorem disciplined_walk (rules : Rules) (budget : Nat) (pair : Pair) :
    Disciplined rules pair (fun _ _ => True) [] (walk rules budget pair) := by
  have hvisit : Disciplined rules pair _ [] (Recursive.walk rules budget pair) :=
    disciplined_visit budget [] [] false false (fun _ => .inl rfl) (fun _ => .inl rfl)
      (List.forall_mem_nil _)
  exact (hvisit.of_cutOf (walk_cutOf budget pair)).mono fun _ _ _ => trivial

end

/-! ## Runs -/

/-- **A walk asks each question once, and only where it knows what to ask for.** Let a file system
answer as it likes, one thing now and another then, or fail, as long as the names that it lists can
stand between separators. Then every run of a walk has an account, with one entry for each of its
exchanges, of which the queries, commands and records of the run are kept. By the texts of the paths
no question is in it twice: on either side no path is classified or listed again, and no pair is
compared again. A side of a place is classified before anything happens there or further down, and
it is that of the pair itself, or was a directory one level up, where the name was listed. It is
listed after it was found to be a directory and before anything happens further down; and files
alone are compared. So there is one answer for what is at a side of a place, and all that is ever
done at the place, before its children are visited or after that, is in the row for these
answers. -/
theorem walk_asks_once {σ τ : Type} (fs : FileSystem σ) (out : Sink τ) (rules : Rules)
    (budget : Nat) (pair : Pair) (start : Run σ τ)
    (hlist : ∀ path names, fs.Gives (.list path) names → ∀ name ∈ names, Segment name) :
    let said := (walk rules budget pair).exchanges fs out start
    ((walk rules budget pair).run fs out start).2.events.toList =
        start.events.toList ++ said.filterMap Exchange.event? ∧
      ∃ account : List Entry, List.Forall₂ (Entry.IsFor pair) account said ∧
        (account.filterMap (Entry.question? pair)).Nodup ∧
        (∀ past entry later, account = past ++ entry :: later → Justified rules past entry) ∧
        (∀ rel side one two, ⟨rel, .classified side one⟩ ∈ account →
          ⟨rel, .classified side two⟩ ∈ account → one = two) ∧
        ∀ rel source destination action, ⟨rel, .took source destination action⟩ ∈ account →
          PairKnown account rel source destination ∧ action ∈ policy source destination := by
  intro said
  obtain ⟨account, hfor, hall⟩ := (disciplined_walk rules budget pair).exists_account fs out start
  have hjustified : AllJustified rules account := hall
  have hnames : ∀ rel side names, ⟨rel, .listed side (.ok names)⟩ ∈ account →
      ∀ name ∈ names, Segment name := fun rel side names hmem =>
    hlist _ names (Dialogue.gives_of_mem_exchanges (mem_exchanges_of_listed hfor hmem))
  exact ⟨Dialogue.events_run_exchanges _ start, account, hfor, hjustified.nodup_questions hnames,
    hjustified, fun rel side one two => hjustified.classified_unique,
    fun rel source destination action => hjustified.pairKnown_of_took⟩

/-- A directory is gone when what was listed in it is looked at. -/
theorem walk_asks_once_vanished :
    let fs : FileSystem Bool := ⟨fun
      | .classify _, first => (.ok (if first then .directory else .missing), false)
      | .list _, first => (.ok [[0x61]], first)
      | .same .., first => (.ok true, first)⟩
    let pair : Pair := ⟨.ofString "s", .ofString "d"⟩
    let start : Run Bool (Array Command) := ⟨true, #[], {}, #[]⟩
    (∀ path names, fs.Gives (.list path) names → ∀ name ∈ names, Segment name) ∧
      ((walk {} 9 pair).run fs (.collect none) start).2.queries =
        [.classify (.ofString "s"), .classify (.ofString "d"), .list (.ofString "s"),
          .classify (.ofString "s/a")] ∧
      ∃ account : List Entry,
        List.Forall₂ (Entry.IsFor pair) account
            ((walk {} 9 pair).exchanges fs (.collect none) start) ∧
          (account.filterMap (Entry.question? pair)).Nodup := by
  intro fs pair start
  have hlist : ∀ path names, fs.Gives (.list path) names → ∀ name ∈ names, Segment name := by
    rintro path _ ⟨_, _, ⟨⟩⟩
    exact List.forall_mem_singleton.mpr ⟨by decide, by decide⟩
  obtain ⟨-, account, hfor, hnodup, -⟩ := walk_asks_once fs (.collect none) {} 9 pair start hlist
  exact ⟨hlist, by decide +kernel, account, hfor, hnodup⟩

end TreePlan
