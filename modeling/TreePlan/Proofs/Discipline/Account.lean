import Mathlib.Data.List.Induction
import TreePlan.Proofs.Exchanges
import TreePlan.Proofs.Path.Below
import TreePlan.Proofs.Tree
import TreePlan.Walk

/-!
# The account of a walk

The account of a walk says of each exchange at which place of the tree it happened and what it was
for, and `Justified` is what an entry of it may be owed to: only to entries before it.

* `Entry.By` and `Grown` tell the entries of an action from others, for what comes of one action of
  a row must not be in the way of the next one;
* `AllJustified.nodup_questions`: where all entries are justified, no question is asked twice, by
  the texts of the paths;
* `AllJustified.pairKnown_of_took`: and all that is done at a place is in one row.
-/

namespace TreePlan

/-! ## Accounts -/

inductive Deed where
  /-- It was asked what is there, on one side. -/
  | classified (side : Side) (result : Except Failure Kind)
  /-- The pair was logged, with the kinds that it was taken to have. -/
  | visited (source destination : Kind)
  /-- It was asked which entries there are, on one side. -/
  | listed (side : Side) (result : Except Failure (List Name))
  /-- It was asked whether the contents of both sides are the same. -/
  | compared (result : Except Failure Bool)
  /-- A request was made to take an action of the row of two kinds. -/
  | took (source destination : Kind) (action : Action)

/-- An entry of an account: the names that lead to the place, and what happened there. -/
structure Entry where
  rel : List Name
  deed : Deed

inductive Action.TakenBy (pair : Pair) (source destination : Kind) : Action → Request → Prop
  | remove : TakenBy pair source destination .remove
      (.emit (.remove pair.destination (destination = .directory)))
  | copy : TakenBy pair source destination .copy (.emit (.copy pair.source pair.destination))
  | copyIfDifferent : TakenBy pair source destination .copyIfDifferent
      (.emit (.copy pair.source pair.destination))
  | mkdir : TakenBy pair source destination .mkdir (.emit (.mkdir pair.destination))
  | queueAdd : TakenBy pair source destination .queueAdd (.note (.add pair.destination))
  | queueDelete : TakenBy pair source destination .queueDelete (.note (.delete pair.destination))
  | typeConflict : TakenBy pair source destination .flagConflict
      (.log (.typeConflict source destination pair.destination))
  | conflict : TakenBy pair source destination .flagConflict (.note .conflict)

inductive Entry.IsFor (root : Pair) : Entry → Exchange → Prop
  | classified (rel : List Name) (side : Side) (result : Except Failure Kind) :
      IsFor root ⟨rel, .classified side result⟩
        ⟨.ask (.classify ((root.below rel).on side)), result⟩
  | visited (rel : List Name) (source destination : Kind) (result : Except Failure Unit) :
      IsFor root ⟨rel, .visited source destination⟩
        ⟨.log (.visiting source destination (root.below rel)), result⟩
  | listed (rel : List Name) (side : Side) (result : Except Failure (List Name)) :
      IsFor root ⟨rel, .listed side result⟩ ⟨.ask (.list ((root.below rel).on side)), result⟩
  | compared (rel : List Name) (result : Except Failure Bool) :
      IsFor root ⟨rel, .compared result⟩
        ⟨.ask (.same (root.below rel).source (root.below rel).destination), result⟩
  | took (rel : List Name) {source destination : Kind} {action : Action} {r : Request}
      (h : action.TakenBy (root.below rel) source destination r) (result : Except Failure r.Reply) :
      IsFor root ⟨rel, .took source destination action⟩ ⟨r, result⟩

/-- What one side of a place is taken to be: what it was classified as, or missing if that was not
asked. -/
def Known (past : List Entry) (side : Side) (rel : List Name) (kind : Kind) : Prop :=
  ⟨rel, .classified side (.ok kind)⟩ ∈ past ∨
    (kind = .missing ∧ ∀ result, ⟨rel, .classified side result⟩ ∉ past)

structure PairKnown (past : List Entry) (rel : List Name) (source destination : Kind) : Prop where
  source : Known past .source rel source
  destination : Known past .destination rel destination

/-- The name was listed at a place, on one side or on the other. -/
def Told (past : List Entry) (rel : List Name) (name : Name) : Prop :=
  ∃ side names, ⟨rel, .listed side (.ok names)⟩ ∈ past ∧ name ∈ names

/-- A side of a place may be looked at: it is that of the pair itself, or else the side was a
directory one level up, and the name is one that was listed there and that is not passed over. -/
def MayLook (rules : Rules) (past : List Entry) (side : Side) (rel : List Name) : Prop :=
  rel = [] ∨ ∃ up name, rel = up ++ [name] ∧ name ∉ rules.metadataNames ∧
    ⟨up, .classified side (.ok .directory)⟩ ∈ past ∧ Told past up name

/-- Nothing happened yet at a place or further down, unless the other side was looked at. -/
def Untouched (past : List Entry) (side : Side) (rel : List Name) : Prop :=
  ∀ entry ∈ past, rel <+: entry.rel →
    ∃ other result, other ≠ side ∧ entry = ⟨rel, .classified other result⟩

/-- What an entry is owed to. Nothing is asked twice, a place is looked at before anything is done
there, and a directory is listed before anything is done below it. -/
def Justified (rules : Rules) (past : List Entry) : Entry → Prop
  | ⟨rel, .classified side _⟩ => Untouched past side rel ∧ MayLook rules past side rel
  | ⟨rel, .visited source destination⟩ => PairKnown past rel source destination
  | ⟨rel, .listed side _⟩ =>
    (∀ other, ⟨rel, .listed side other⟩ ∉ past) ∧
      ⟨rel, .classified side (.ok .directory)⟩ ∈ past ∧
      ∀ entry ∈ past, rel <+: entry.rel → entry.rel = rel
  | ⟨rel, .compared _⟩ =>
    (∀ other, ⟨rel, .compared other⟩ ∉ past) ∧ ∀ side, ⟨rel, .classified side (.ok .file)⟩ ∈ past
  | ⟨rel, .took source destination action⟩ =>
    PairKnown past rel source destination ∧ action ∈ policy source destination

section
variable {rules : Rules} {root : Pair} {past new : List Entry} {rel : List Name} {side : Side}
  {kind source destination : Kind} {name : Name} {action : Action}

theorem Known.append (h : Known past side rel kind)
    (hnew : ∀ result, ⟨rel, .classified side result⟩ ∉ new) :
    Known (past ++ new) side rel kind := by
  refine h.imp (List.mem_append_left new) (And.imp_right fun hnone result hmem => ?_)
  exact (List.mem_append.mp hmem).elim (hnone result) (hnew result)

theorem Known.classified (h : Known past side rel kind) (hkind : kind ≠ .missing) :
    ⟨rel, .classified side (.ok kind)⟩ ∈ past := h.resolve_right fun hmissing => hkind hmissing.1

theorem Untouched.classified_notMem (h : Untouched past side rel) {result : Except Failure Kind} :
    ⟨rel, .classified side result⟩ ∉ past := by
  intro hmem
  obtain ⟨other, _, hne, heq⟩ := h _ hmem List.prefix_rfl
  cases heq
  exact hne rfl

theorem Told.append (h : Told past rel name) (new : List Entry) : Told (past ++ new) rel name := by
  obtain ⟨side, names, hmem, hname⟩ := h
  exact ⟨side, names, List.mem_append_left new hmem, hname⟩

theorem MayLook.append (h : MayLook rules past side rel) (new : List Entry) :
    MayLook rules (past ++ new) side rel := by
  refine h.imp_right ?_
  rintro ⟨up, name, hrel, hvisible, hdirectory, htold⟩
  exact ⟨up, name, hrel, hvisible, List.mem_append_left new hdirectory, htold.append new⟩

/-! ## The entries of an action -/

/-- The entries that taking an action at the place `rel` leaves: its requests, the questions that it
depends on, and for `recurse` all that happens further down. -/
inductive Entry.By (rel : List Name) : Action → Entry → Prop
  | took (source destination : Kind) (action : Action) :
      By rel action ⟨rel, .took source destination action⟩
  | compared (result : Except Failure Bool) : By rel .copyIfDifferent ⟨rel, .compared result⟩
  | listed (side : Side) (result : Except Failure (List Name)) :
      By rel .recurse ⟨rel, .listed side result⟩
  | below (name : Name) {entry : Entry} (h : rel ++ [name] <+: entry.rel) : By rel .recurse entry

namespace Entry.By

theorem isPart {entry : Entry} (h : entry.By rel action) : rel <+: entry.rel := by
  cases h with
  | took | compared | listed => exact List.prefix_rfl
  | below name h => exact (List.prefix_append rel [name]).trans h

/-- Each entry is that of one action. -/
theorem eq {entry : Entry} {other : Action} (h : entry.By rel action) (h' : entry.By rel other) :
    action = other := by
  cases h with
  | took source destination =>
      cases h' with
      | took => rfl
      | below name h => exact absurd h not_child_above
  | compared result =>
      cases h' with
      | compared => rfl
      | below name h => exact absurd h not_child_above
  | listed side result =>
      cases h' with
      | listed | below => rfl
  | below name h =>
      cases h' with
      | took | compared => exact absurd h not_child_above
      | listed | below => rfl

theorem not_classified {result : Except Failure Kind} :
    ¬ Entry.By rel action ⟨rel, .classified side result⟩ := by
  rintro (_ | _ | _ | ⟨name, h⟩)
  exact not_child_above h

theorem not_visited : ¬ Entry.By rel action ⟨rel, .visited source destination⟩ := by
  rintro (_ | _ | _ | ⟨name, h⟩)
  exact not_child_above h

end Entry.By

/-! ## How an account grows -/

/-- Only entries of a certain sort came to the account. -/
def Grown (P : Entry → Prop) (past after : List Entry) : Prop :=
  ∃ new, after = past ++ new ∧ ∀ entry ∈ new, P entry

namespace Grown

variable {P R : Entry → Prop} {mid after : List Entry}

theorem refl (past : List Entry) : Grown P past past :=
  ⟨[], (List.append_nil past).symm, List.forall_mem_nil _⟩

theorem single {entry : Entry} (h : P entry) : Grown P past (past ++ [entry]) :=
  ⟨[entry], rfl, List.forall_mem_singleton.mpr h⟩

theorem trans (h : Grown P past mid) (h' : Grown P mid after) : Grown P past after := by
  obtain ⟨xs, rfl, hxs⟩ := h
  obtain ⟨ys, rfl, hys⟩ := h'
  exact ⟨xs ++ ys, List.append_assoc .., List.forall_mem_append.mpr ⟨hxs, hys⟩⟩

theorem mono (h : Grown P past after) (hP : ∀ entry, P entry → R entry) : Grown R past after := by
  obtain ⟨new, rfl, hnew⟩ := h
  exact ⟨new, rfl, fun entry hentry => hP entry (hnew entry hentry)⟩

theorem mem_or (h : Grown P past after) {entry : Entry} (hentry : entry ∈ after) :
    entry ∈ past ∨ P entry := by
  obtain ⟨new, rfl, hnew⟩ := h
  exact (List.mem_append.mp hentry).imp_right (hnew entry)

theorem known (h : Grown P past after) (hknown : Known past side rel kind)
    (hP : ∀ result, ¬ P ⟨rel, .classified side result⟩) : Known after side rel kind := by
  obtain ⟨new, rfl, hnew⟩ := h
  exact hknown.append fun result hmem => hP result (hnew _ hmem)

theorem pairKnown (h : Grown P past after) (hknown : PairKnown past rel source destination)
    (hP : ∀ side result, ¬ P ⟨rel, .classified side result⟩) :
    PairKnown after rel source destination :=
  ⟨h.known hknown.source (hP .source), h.known hknown.destination (hP .destination)⟩

theorem told (h : Grown P past after) (htold : Told past rel name) : Told after rel name := by
  obtain ⟨new, rfl, -⟩ := h
  exact htold.append new

theorem mayLook (h : Grown P past after) (hlook : MayLook rules past side rel) :
    MayLook rules after side rel := by
  obtain ⟨new, rfl, -⟩ := h
  exact hlook.append new

end Grown

end

/-! ## What follows for a whole account -/

def AllJustified (rules : Rules) (account : List Entry) : Prop :=
  ∀ past entry later, account = past ++ entry :: later → Justified rules past entry

def Entry.question? (root : Pair) : Entry → Option (Option Side × Query)
  | ⟨rel, .classified side _⟩ => some (some side, .classify ((root.below rel).on side))
  | ⟨rel, .listed side _⟩ => some (some side, .list ((root.below rel).on side))
  | ⟨rel, .compared _⟩ => some (none, .same (root.below rel).source (root.below rel).destination)
  | ⟨_, .visited ..⟩ | ⟨_, .took ..⟩ => none

theorem nodup_filterMap_of_split {α β : Type} {f : α → Option β} {xs : List α}
    (h : ∀ past x later, xs = past ++ x :: later → ∀ b, f x = some b → ∀ y ∈ past, f y ≠ some b) :
    (xs.filterMap f).Nodup := by
  induction xs using List.reverseRecOn with
  | nil => exact List.nodup_nil
  | append_singleton xs x ih =>
      rw [List.filterMap_append, List.nodup_append]
      refine ⟨ih fun past y later heq => h past y (later ++ [x]) (by simp [heq]), ?_, ?_⟩
      · cases hx : f x <;> simp [hx]
      · intro a ha b hb
        obtain ⟨y, hy, hya⟩ := List.mem_filterMap.mp ha
        obtain ⟨z, hz, hzb⟩ := List.mem_filterMap.mp hb
        obtain rfl := List.mem_singleton.mp hz
        rintro rfl
        exact h xs z [] rfl a hzb y hy hya

/-- The question tells the place, where names are such as can stand between separators. -/
theorem Entry.head_paths_question {root : Pair} {entry : Entry} {side : Option Side} {query : Query}
    (h : entry.question? root = some (side, query)) :
    query.paths.head? = some ((root.on (side.getD .source)).below entry.rel) := by
  obtain ⟨rel, deed⟩ := entry
  cases deed with
  | visited | took => cases h
  | compared => cases h; rfl
  | classified side | listed side =>
      cases h
      exact congrArg some (root.on_below rel side)

namespace AllJustified

variable {rules : Rules} {root : Pair} {account past mid later : List Entry} {entry other : Entry}
  {rel : List Name} {side : Side}

theorem justified_later (h : AllJustified rules (past ++ entry :: (mid ++ other :: later))) :
    Justified rules (past ++ entry :: mid) other := h _ other later (by simp)

/-- A side of a place is classified once. -/
theorem classified_unique (h : AllJustified rules account) {one two : Except Failure Kind}
    (hone : ⟨rel, .classified side one⟩ ∈ account) (htwo : ⟨rel, .classified side two⟩ ∈ account) :
    one = two := by
  obtain ⟨past, later, rfl⟩ := List.append_of_mem hone
  obtain ⟨huntouched, -⟩ := h past _ later rfl
  rcases List.mem_append.mp htwo with hpast | hlater
  · -- looked at before: then there is no second look
    exact absurd hpast huntouched.classified_notMem
  · rcases List.mem_cons.mp hlater with heq | hlater
    · cases heq
      rfl
    · -- looked at later: neither
      obtain ⟨mid, rest, rfl⟩ := List.append_of_mem hlater
      obtain ⟨huntouched', -⟩ := h.justified_later
      exact absurd (List.mem_append_right past List.mem_cons_self) huntouched'.classified_notMem

/-- What a place was taken to be when something was done there, it is taken to be for good. -/
theorem known_of_known {kind : Kind} (h : AllJustified rules (past ++ entry :: later))
    (hknown : Known past side entry.rel kind)
    (hentry : ∀ side result, entry.deed ≠ .classified side result) :
    Known (past ++ entry :: later) side entry.rel kind := by
  refine hknown.append fun result hmem => ?_
  rcases List.mem_cons.mp hmem with heq | hlater
  · exact hentry side result (congrArg Entry.deed heq.symm)
  · obtain ⟨mid, rest, rfl⟩ := List.append_of_mem hlater
    obtain ⟨huntouched, -⟩ := h.justified_later
    obtain ⟨other, _, -, heq⟩ :=
      huntouched entry (List.mem_append_right past List.mem_cons_self) List.prefix_rfl
    exact hentry other _ (congrArg Entry.deed heq)

theorem pairKnown_of_took (h : AllJustified rules account) {source destination : Kind}
    {action : Action} (htook : ⟨rel, .took source destination action⟩ ∈ account) :
    PairKnown account rel source destination ∧ action ∈ policy source destination := by
  obtain ⟨past, later, rfl⟩ := List.append_of_mem htook
  obtain ⟨hkinds, hmem⟩ := h past _ later rfl
  exact ⟨⟨h.known_of_known hkinds.source nofun, h.known_of_known hkinds.destination nofun⟩, hmem⟩

section
variable (h : AllJustified rules account)
  (hnames : ∀ rel side names, ⟨rel, .listed side (.ok names)⟩ ∈ account →
    ∀ name ∈ names, Segment name)
include h hnames

/-- The names that lead to where something is looked at were listed. -/
theorem segment_of_classified {result : Except Failure Kind}
    (hmem : ⟨rel, .classified side result⟩ ∈ account) : ∀ name ∈ rel, Segment name := by
  induction rel using List.reverseRecOn generalizing result with
  | nil => exact List.forall_mem_nil _
  | append_singleton rel name ih =>
      obtain ⟨past, later, rfl⟩ := List.append_of_mem hmem
      obtain ⟨-, hlook⟩ := h past _ later rfl
      rcases hlook with hnil | ⟨up, last, heq, -, hup, other, names, hlisted, hname⟩
      · -- the pair itself has no last name
        exact absurd hnil (by simp)
      · -- the last name was listed one level up
        obtain ⟨rfl, hlast⟩ := List.append_inj' heq rfl
        obtain rfl := List.singleton_inj.mp hlast
        refine List.forall_mem_append.mpr ⟨ih (List.mem_append_left _ hup), ?_⟩
        exact List.forall_mem_singleton.mpr
          (hnames _ other names (List.mem_append_left _ hlisted) name hname)

theorem segment_of_question (hentry : entry ∈ account) {question : Option Side × Query}
    (hquestion : entry.question? root = some question) : ∀ name ∈ entry.rel, Segment name := by
  obtain ⟨rel, deed⟩ := entry
  obtain ⟨past, later, heq⟩ := List.append_of_mem hentry
  have hjustified := h past _ later heq
  have hpast : ∀ {other : Entry}, other ∈ past → other ∈ account :=
    fun hmem => heq ▸ List.mem_append_left _ hmem
  cases deed with
  | visited | took => cases hquestion
  | classified => exact h.segment_of_classified hnames hentry
  | listed => exact h.segment_of_classified hnames (hpast hjustified.2.1)
  | compared => exact h.segment_of_classified hnames (hpast (hjustified.2 .source))

/-- **No question is asked twice**, by the texts of the paths. -/
theorem nodup_questions : (account.filterMap (Entry.question? root)).Nodup := by
  refine nodup_filterMap_of_split ?_
  rintro past ⟨rel, deed⟩ later heq ⟨side, query⟩ hone ⟨rel', deed'⟩ hpast htwo
  have hjustified := h past _ later heq
  -- One text is that of one place.
  obtain rfl : rel' = rel := by
    have hthere := heq ▸ List.mem_append_left _ hpast
    have hhere := heq ▸ List.mem_append_right past List.mem_cons_self
    have hfirst := h.segment_of_question hnames hthere htwo
    have hsecond := h.segment_of_question hnames hhere hone
    have htext := (Entry.head_paths_question htwo).symm.trans (Entry.head_paths_question hone)
    exact Path.below_inj _ hfirst hsecond (Option.some.inj htext)
  -- So it was the same question about the same place.
  cases deed with
  | visited | took => cases hone
  | classified side =>
      cases hone
      cases deed' with
      | visited | took | listed | compared => cases htwo
      | classified side' =>
          obtain rfl : side' = side :=
            Option.some.inj (Option.some.inj (congrArg (Option.map Prod.fst) htwo))
          exact hjustified.1.classified_notMem hpast
  | listed side =>
      cases hone
      cases deed' with
      | visited | took | classified | compared => cases htwo
      | listed side' result =>
          obtain rfl : side' = side :=
            Option.some.inj (Option.some.inj (congrArg (Option.map Prod.fst) htwo))
          exact hjustified.1 result hpast
  | compared =>
      cases hone
      cases deed' with
      | visited | took | classified | listed => cases htwo
      | compared result => exact hjustified.1 result hpast

end

end AllJustified

/-- What an account says to be listed was answered. -/
theorem mem_exchanges_of_listed {root : Pair} {account : List Entry} {said : List Exchange}
    (h : List.Forall₂ (Entry.IsFor root) account said) {rel : List Name} {side : Side}
    {names : List Name} (hmem : ⟨rel, .listed side (.ok names)⟩ ∈ account) :
    ⟨.ask (.list ((root.below rel).on side)), .ok names⟩ ∈ said := by
  induction h with
  | nil => exact absurd hmem List.not_mem_nil
  | cons hfor _ ih =>
      rcases List.mem_cons.mp hmem with rfl | hrest
      · cases hfor
        exact List.mem_cons_self
      · exact List.mem_cons_of_mem _ (ih hrest)

end TreePlan
