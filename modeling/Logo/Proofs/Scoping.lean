import Logo.Proofs.Running.Frames
import Mathlib.Data.List.Induction
import Mathlib.Logic.Relation

/-!
# What a look-up finds

Frames are made and written to in any order and from anywhere in the forest that they form. This
file says what a look-up finds without any frames: from the list of what has been done. The changes
that make frames say which trees there are, and the changes that bind names say which frame each of
them binds in. A look-up finds the latest binding of the name in the nearest frame that has one.

The proof has two halves. The first one is about one change: how the parents and the bindings of the
frames differ after it. The second one is about a look-up in frames that stay as they are, and goes
up from a frame to its parent, which has a smaller number.

* `Scopes.tree_after`: the parents are those that the changes say.
* `Scopes.binding?_after`: each frame binds a name as the latest change says.
* `Scopes.lookup_eq_some_iff`: a look-up takes the nearest frame that binds the name.
* `Scopes.lookup_finds_nearest`: the statement in all its parts.
-/

namespace Logo.Scopes

/-! ## Changes -/

/-- What can be done with frames. -/
inductive Change where
  /-- Make a root. -/
  | newRoot
  /-- Make a child of a frame. -/
  | extend (f : FrameId)
  /-- Bind a name in the root of a frame's chain. -/
  | set (f : FrameId) (name : String) (v : Value)
  /-- Bind a name in a frame. -/
  | define (f : FrameId) (name : String) (v : Value)

/-- The frames after one more change. -/
def Change.apply (s : Scopes) : Change → Scopes
  | newRoot => s.newRoot
  | extend f => s.extend f
  | set f name v => s.set f name v
  | define f name v => s.define f name v

/-- The frame that a change starts from. -/
def Change.origin? : Change → Option FrameId
  | newRoot => none
  | extend f | set f _ _ | define f _ _ => some f

/-- The frame that a change makes, if it makes one, given by its parent. -/
def Change.made? : Change → Option (Option FrameId)
  | newRoot => some none
  | extend f => some (some f)
  | set _ _ _ | define _ _ _ => none

/-- The frames after changes, of which the first one comes first. -/
def after (changes : List Change) : Scopes := changes.foldl Change.apply empty

/-! ## Trees -/

/-- The parents of the frames that changes make, in the order in which the frames are made. -/
def parents (changes : List Change) : List (Option FrameId) := changes.filterMap Change.made?

/-- Every change starts from a frame that is there already. -/
def Valid (changes : List Change) : Prop :=
  ∀ i : Fin changes.length, ∀ f ∈ (changes.get i).origin?, f < (parents (changes.take i)).length

instance (changes : List Change) : Decidable (Valid changes) :=
  inferInstanceAs (Decidable (∀ i : Fin changes.length, ∀ f ∈ (changes.get i).origin?, _))

variable (t : List (Option FrameId))

/-- The frame `p` is the parent of `f`. -/
def IsParent (f p : FrameId) : Prop := t[f]? = some (some p)

/-- The frame has no parent. -/
def IsTop (f : FrameId) : Prop := t[f]? = some none

/-- The frame `g` is on the chain of `f`: it is `f`, its parent, the parent of that, and so on. -/
def Leads : FrameId → FrameId → Prop := Relation.ReflTransGen (IsParent t)

/-- The change binds the name in the frame `g` to the value. -/
inductive Change.Binds (g : FrameId) (name : String) (v : Value) : Change → Prop
  | define {other : String} : Text.lower other = Text.lower name →
      Binds g name v (.define g other v)
  | set {f : FrameId} {other : String} : Leads t f g → IsTop t g →
      Text.lower other = Text.lower name → Binds g name v (.set f other v)

/-- Some change binds the name in the frame. -/
def Bound (changes : List Change) (g : FrameId) (name : String) : Prop :=
  ∃ c ∈ changes, ∃ v, c.Binds t g name v

/-- The last change that binds the name in the frame binds it to the value. -/
def Latest (changes : List Change) (g : FrameId) (name : String) (v : Value) : Prop :=
  ∃ before c later, changes = before ++ c :: later ∧ c.Binds t g name v ∧
    ¬ Bound t later g name

/-- The value is the latest one in the nearest frame on the chain of `f` that binds the name. -/
def Finds (changes : List Change) (f : FrameId) (name : String) (v : Value) : Prop :=
  ∃ g, Leads t f g ∧ Latest t changes g name v ∧
    ∀ k, Leads t f k → Relation.TransGen (IsParent t) k g → ¬ Bound t changes k name

/-- No frame on the chain of `f` binds the name. -/
def Unbound (changes : List Change) (f : FrameId) (name : String) : Prop :=
  ∀ g, Leads t f g → ¬ Bound t changes g name

/-- A frame on the chain of `f` that is no root binds the name. -/
def Shadowed (changes : List Change) (f : FrameId) (name : String) : Prop :=
  ∃ k, Leads t f k ∧ ¬ IsTop t k ∧ Bound t changes k name

variable {t}

lemma IsTop.not_isParent {f p : FrameId} (h : IsTop t f) : ¬ IsParent t f p := by
  intro hp
  have heq : some (none : Option FrameId) = some (some p) := h.symm.trans hp
  simp at heq

lemma Leads.eq_of_isTop {f g : FrameId} (h : Leads t f g) (htop : IsTop t f) : g = f := by
  rcases Relation.ReflTransGen.cases_head h with heq | ⟨p, hp, -⟩
  · exact heq.symm
  · exact absurd hp htop.not_isParent

/-- Of two frames on a chain, one is on the chain of the other. -/
lemma Leads.total {f g k : FrameId} (hg : Leads t f g) (hk : Leads t f k) :
    Leads t g k ∨ Leads t k g := by
  have hunique : Relator.RightUnique (IsParent t) := by
    intro a b c hb hc
    have heq : some (some b) = some (some c) := hb.symm.trans hc
    simpa using heq
  exact Relation.ReflTransGen.total_of_right_unique hunique hg hk

/-- All chains from a frame end at the same root. -/
lemma Leads.top_unique {f g k : FrameId} (hg : Leads t f g) (hgtop : IsTop t g)
    (hk : Leads t f k) (hktop : IsTop t k) : k = g := by
  rcases Leads.total hg hk with hgk | hkg
  · exact Leads.eq_of_isTop hgk hgtop
  · exact (Leads.eq_of_isTop hkg hktop).symm

/-! ## Lists of changes that grow at the end -/

section Growing

variable {changes : List Change} {c : Change} {g : FrameId} {name : String} {v : Value}

lemma after_concat : after (changes ++ [c]) = c.apply (after changes) := by
  simp [after]

lemma parents_concat : parents (changes ++ [c]) = parents changes ++ c.made?.toList := by
  cases c <;> simp [parents, Change.made?]

lemma Valid.of_concat (h : Valid (changes ++ [c])) :
    Valid changes ∧ ∀ f, c.origin? = some f → f < (parents changes).length := by
  constructor
  · intro i f hf
    have hi : i.val < (changes ++ [c]).length := by
      rw [List.length_append]
      exact Nat.lt_add_right _ i.isLt
    have hget : (changes ++ [c]).get ⟨i, hi⟩ = changes.get i := List.getElem_append_left i.isLt
    have htake : (changes ++ [c]).take i = changes.take i :=
      List.take_append_of_le_length (Nat.le_of_lt i.isLt)
    have hlt := h ⟨i, hi⟩ f (hget ▸ hf)
    rwa [htake] at hlt
  · intro f hf
    have hlt := h ⟨changes.length, by simp⟩ f (by simpa using hf)
    simpa using hlt

lemma bound_concat :
    Bound t (changes ++ [c]) g name ↔ Bound t changes g name ∨ ∃ v, c.Binds t g name v := by
  constructor
  · rintro ⟨d, hd, hbinds⟩
    rcases List.mem_append.1 hd with hd | hd
    · exact .inl ⟨d, hd, hbinds⟩
    · obtain rfl := List.mem_singleton.1 hd
      exact .inr hbinds
  · rintro (⟨d, hd, hbinds⟩ | hbinds)
    · exact ⟨d, List.mem_append_left _ hd, hbinds⟩
    · exact ⟨c, by simp, hbinds⟩

/-- The latest binding is that of the last change, if it binds the name at all. -/
lemma latest_concat : Latest t (changes ++ [c]) g name v ↔
    c.Binds t g name v ∨ (∀ w, ¬ c.Binds t g name w) ∧ Latest t changes g name v := by
  constructor
  · rintro ⟨before, d, later, heq, hbinds, hlater⟩
    rcases List.eq_nil_or_concat later with rfl | ⟨later, e, rfl⟩
    · obtain ⟨-, hcd⟩ := List.append_inj' heq rfl
      obtain rfl : c = d := by simpa using hcd
      exact .inl hbinds
    · have hsplit : changes ++ [c] = (before ++ d :: later) ++ [e] := by simpa using heq
      obtain ⟨rfl, hce⟩ := List.append_inj' hsplit rfl
      obtain rfl : c = e := by simpa using hce
      rw [List.concat_eq_append, bound_concat, not_or] at hlater
      exact .inr ⟨fun w hw => hlater.2 ⟨w, hw⟩, before, d, later, rfl, hbinds, hlater.1⟩
  · rintro (hbinds | ⟨hnone, before, d, later, rfl, hbinds, hlater⟩)
    · exact ⟨changes, c, [], rfl, hbinds, by simp [Bound]⟩
    · refine ⟨before, d, later ++ [c], by simp, hbinds, ?_⟩
      rw [bound_concat, not_or]
      exact ⟨hlater, fun ⟨w, hw⟩ => hnone w hw⟩

/-- A frame with a binding has a latest one. -/
lemma bound_iff_exists_latest :
    Bound t changes g name ↔ ∃ v, Latest t changes g name v := by
  induction changes using List.reverseRecOn with
  | nil => simp [Bound, Latest]
  | append_singleton changes c ih =>
    rw [bound_concat, ih]
    constructor
    · rintro (⟨v, hv⟩ | ⟨v, hv⟩)
      · by_cases hc : ∃ w, c.Binds t g name w
        · obtain ⟨w, hw⟩ := hc
          exact ⟨w, latest_concat.2 (.inl hw)⟩
        · exact ⟨v, latest_concat.2 (.inr ⟨fun w hw => hc ⟨w, hw⟩, hv⟩)⟩
      · exact ⟨v, latest_concat.2 (.inl hv)⟩
    · rintro ⟨v, hv⟩
      rcases latest_concat.1 hv with hv | ⟨-, hv⟩
      · exact .inr ⟨v, hv⟩
      · exact .inl ⟨v, hv⟩

end Growing

/-! ## One change -/

/-- The parents of the frames, in the order of the frames. -/
def tree (s : Scopes) : List (Option FrameId) := s.frames.toList.map Frame.parent

section OneChange

variable (s : Scopes)

lemma length_tree : s.tree.length = s.nextId := by
  simp [tree, nextId]

lemma parent?_eq (f : FrameId) : s.parent? f = s.tree[f]?.join := by
  rw [parent?, tree, List.getElem?_map, Array.getElem?_toList]
  cases s.frames[f]? <;> rfl

lemma isParent_iff {f p : FrameId} : IsParent s.tree f p ↔ s.parent? f = some p := by
  rw [parent?_eq, Option.join_eq_some_iff]
  rfl

lemma parent_lt_of_isParent {f p : Nat} (h : IsParent s.tree f p) : p < f := by
  obtain ⟨frame, hframe, hp⟩ := Option.bind_eq_some_iff.1 (s.isParent_iff.1 h)
  exact s.parent_lt f frame p hframe hp

lemma tree_define (f : FrameId) (name : String) (v : Value) :
    (s.define f name v).tree = s.tree := by
  refine List.ext_getElem? fun i => ?_
  show ((s.frames.modify f _).toList.map _)[i]? = (s.frames.toList.map _)[i]?
  rw [List.getElem?_map, List.getElem?_map, Array.getElem?_toList, Array.getElem?_toList,
    Array.getElem?_modify]
  split
  · cases s.frames[i]? <;> rfl
  · rfl

/-- Only the change that makes a frame has a say in the parents. -/
lemma tree_apply {c : Change} (h : ∀ f, c.origin? = some f → f < s.nextId) :
    (c.apply s).tree = s.tree ++ c.made?.toList := by
  cases c with
  | newRoot => simp [Change.apply, Change.made?, newRoot, push, tree]
  | extend f =>
    have hf : f < s.frames.size := h f rfl
    simp [Change.apply, Change.made?, extend, push, tree, Option.filter, hf]
  | set f name v => simp [Change.apply, Change.made?, set, tree_define]
  | define f name v => simp [Change.apply, Change.made?, tree_define]

lemma binding?_push (parent : Option FrameId) (g : FrameId) (name : String) :
    (s.push parent .empty).binding? g name = s.binding? g name := by
  show ((s.frames.push _)[g]?.bind _) = _
  rw [Array.getElem?_push]
  split
  · next h =>
    have hnone : s.frames[g]? = none := Array.getElem?_eq_none (Nat.le_of_eq h.symm)
    rw [binding?, hnone]
    rfl
  · rfl

lemma binding?_define {f : FrameId} (hf : f < s.nextId) (name other : String) (v : Value)
    (g : FrameId) : (s.define f name v).binding? g other =
      if g = f ∧ Text.lower other = Text.lower name then some v else s.binding? g other := by
  show ((s.frames.modify f _)[g]?.bind _) = _
  rw [Array.getElem?_modify]
  by_cases hg : f = g
  · subst hg
    obtain ⟨frame, hframe⟩ : ∃ frame, s.frames[f]? = some frame :=
      ⟨_, Array.getElem?_eq_getElem hf⟩
    simp only [if_pos, binding?, hframe, Option.map_some, Option.bind_some,
      Dictionary.find?_insert, true_and]
  · rw [if_neg hg, if_neg fun h => hg h.1.symm, binding?]

/-! The root of a frame, as the tree has it. -/

lemma le_of_leads {f g : Nat} (h : Leads s.tree f g) : g ≤ f := by
  induction h with
  | refl => exact Nat.le_refl f
  | tail _ hparent ih => exact Nat.le_trans (Nat.le_of_lt (s.parent_lt_of_isParent hparent)) ih

/-- No frame on the chain of `f` stands below `f`. -/
lemma not_transGen_of_leads {f k : Nat} (h : Leads s.tree f k) :
    ¬ Relation.TransGen (IsParent s.tree) k f := by
  intro hkf
  obtain ⟨p, hp, hpf⟩ := Relation.TransGen.head'_iff.1 hkf
  have hle := s.le_of_leads h
  have hlt := s.parent_lt_of_isParent hp
  have hfp := s.le_of_leads hpf
  omega

lemma leads_getLastD_chainFrom (steps f : Nat) (default : FrameId) :
    Leads s.tree f ((s.chainFrom steps f).getLastD default) := by
  induction steps generalizing f default with
  | zero => exact .refl
  | succ steps ih =>
    unfold chainFrom
    cases hparent : s.parent? f with
    | none => exact .refl
    | some p =>
      show Leads s.tree f ((f :: s.chainFrom steps p).getLastD default)
      rw [List.getLastD_cons]
      exact .head (s.isParent_iff.2 hparent) (ih p f)

lemma leads_root (f : FrameId) : Leads s.tree f (s.root f) := s.leads_getLastD_chainFrom f f f

lemma isTop_root {f : FrameId} (hf : f < s.nextId) : IsTop s.tree (s.root f) := by
  have hlt : s.root f < s.tree.length := by
    rw [length_tree]
    exact Nat.lt_of_le_of_lt (s.le_of_leads (s.leads_root f)) hf
  have hnone : s.tree[s.root f]?.join = none := by rw [← parent?_eq, s.parent?_root f]
  rw [List.getElem?_eq_getElem hlt] at hnone
  unfold IsTop
  rw [List.getElem?_eq_getElem hlt]
  exact congrArg some hnone

variable {s} in
/-- In a larger forest, the roots are the same. -/
lemma binds_set_iff (hgrows : s.tree <+: t) {f g : FrameId} (hf : f < s.nextId)
    {name other : String} {v w : Value} : (Change.set f other w).Binds t g name v ↔
      g = s.root f ∧ Text.lower name = Text.lower other ∧ v = w := by
  have hmono : ∀ (i : Nat) a, s.tree[i]? = some a → t[i]? = some a := by
    intro i a hi
    obtain ⟨rest, rfl⟩ := hgrows
    obtain ⟨hlt, -⟩ := List.getElem?_eq_some_iff.1 hi
    rwa [List.getElem?_append_left hlt]
  have hleads : Leads t f (s.root f) :=
    Relation.ReflTransGen.mono (fun i p => hmono i (some p)) _ _ (s.leads_root f)
  have htop : IsTop t (s.root f) := hmono _ none (s.isTop_root hf)
  constructor
  · rintro (_ | ⟨hg, hgtop, hname⟩)
    exact ⟨Leads.top_unique hleads htop hg hgtop, hname.symm, rfl⟩
  · rintro ⟨rfl, hname, rfl⟩
    exact .set hleads htop hname.symm

lemma binds_define_iff {f g : FrameId} {name other : String} {v w : Value} :
    (Change.define f other w).Binds t g name v ↔
      g = f ∧ Text.lower name = Text.lower other ∧ v = w := by
  constructor
  · rintro (hname | _)
    exact ⟨rfl, hname.symm, rfl⟩
  · rintro ⟨rfl, hname, rfl⟩
    exact .define hname.symm

lemma binding?_define_eq_some_iff {f : FrameId} (hf : f < s.nextId) {g : FrameId}
    {name other : String} {v w : Value} : (s.define f other w).binding? g name = some v ↔
      (g = f ∧ Text.lower name = Text.lower other ∧ v = w) ∨
        (∀ u, ¬ (g = f ∧ Text.lower name = Text.lower other ∧ u = w)) ∧
          s.binding? g name = some v := by
  rw [s.binding?_define hf]
  split
  · next h =>
    obtain ⟨rfl, hname⟩ := h
    simp [hname, eq_comm]
  · next h =>
    have hnever : ∀ u, ¬ (g = f ∧ Text.lower name = Text.lower other ∧ u = w) :=
      fun u hu => h ⟨hu.1, hu.2.1⟩
    simp only [hnever v, false_or, hnever, not_false_eq_true, implies_true, true_and]

/-- After a change, a frame binds a name as the change says, or else as before. -/
lemma binding?_apply (hgrows : s.tree <+: t) {c : Change}
    (horigin : ∀ f, c.origin? = some f → f < s.nextId) {g : FrameId} {name : String} {v : Value} :
    (c.apply s).binding? g name = some v ↔ c.Binds t g name v ∨
      (∀ w, ¬ c.Binds t g name w) ∧ s.binding? g name = some v := by
  cases c with
  | newRoot =>
    have hnever : ∀ w, ¬ Change.newRoot.Binds t g name w := by rintro w ⟨⟩
    simp only [Change.apply, newRoot, binding?_push, hnever, false_or, not_false_eq_true,
      implies_true, true_and]
  | extend f =>
    have hnever : ∀ w, ¬ (Change.extend f).Binds t g name w := by rintro w ⟨⟩
    simp only [Change.apply, extend, binding?_push, hnever, false_or, not_false_eq_true,
      implies_true, true_and]
  | define f other w =>
    simp only [Change.apply, binds_define_iff]
    exact s.binding?_define_eq_some_iff (horigin f rfl)
  | set f other w =>
    have hf : f < s.nextId := horigin f rfl
    simp only [Change.apply, set, binds_set_iff hgrows hf]
    exact s.binding?_define_eq_some_iff (Nat.lt_of_le_of_lt (s.le_of_leads (s.leads_root f)) hf)

end OneChange

/-! ## Many changes -/

/-- The parents of the frames are those that the changes say. -/
lemma tree_after {changes : List Change} (h : Valid changes) :
    (after changes).tree = parents changes := by
  induction changes using List.reverseRecOn with
  | nil => rfl
  | append_singleton changes c ih =>
    obtain ⟨hvalid, horigin⟩ := h.of_concat
    have htree := ih hvalid
    rw [after_concat, parents_concat, ← htree]
    refine tree_apply _ fun f hf => ?_
    rw [← length_tree, htree]
    exact horigin f hf

/-- Each frame binds a name as the latest change says. -/
lemma binding?_after {changes : List Change} (h : Valid changes) (hgrows : parents changes <+: t)
    {g : FrameId} {name : String} {v : Value} :
    (after changes).binding? g name = some v ↔ Latest t changes g name v := by
  induction changes using List.reverseRecOn generalizing v with
  | nil =>
    have hnone : (after []).binding? g name = none := rfl
    simp [hnone, Latest]
  | append_singleton changes c ih =>
    obtain ⟨hvalid, horigin⟩ := h.of_concat
    rw [parents_concat] at hgrows
    have hbefore : parents changes <+: t := (List.prefix_append _ _).trans hgrows
    have htree := tree_after hvalid
    rw [after_concat, latest_concat, ← ih hvalid hbefore]
    refine binding?_apply _ (htree ▸ hbefore) fun f hf => ?_
    rw [← length_tree, htree]
    exact horigin f hf

lemma binding?_after_eq_none {changes : List Change} (h : Valid changes)
    (hgrows : parents changes <+: t) {g : FrameId} {name : String} :
    (after changes).binding? g name = none ↔ ¬ Bound t changes g name := by
  rw [bound_iff_exists_latest, Option.eq_none_iff_forall_ne_some, not_exists]
  exact forall_congr' fun v => not_congr (binding?_after h hgrows)

/-! ## Going up -/

section Lookup

variable (s : Scopes) {f : Nat} {name : String}

/-- More steps than the number of the frame lead nowhere else. -/
lemma chainFrom_eq {a b f : Nat} (ha : f ≤ a) (hb : f ≤ b) : s.chainFrom a f = s.chainFrom b f := by
  induction a generalizing b f with
  | zero =>
    obtain rfl : f = 0 := Nat.le_zero.1 ha
    cases b with
    | zero => rfl
    | succ b =>
      have hparent : s.parent? 0 = none := by
        rw [Option.eq_none_iff_forall_ne_some]
        intro p hp
        exact Nat.not_lt_zero p (s.parent_lt_of_isParent (s.isParent_iff.2 hp))
      simp [chainFrom, hparent]
  | succ a ih =>
    cases hparent : s.parent? f with
    | none =>
      cases b with
      | zero => simp [chainFrom, hparent]
      | succ b => simp [chainFrom, hparent]
    | some p =>
      have hp := s.parent_lt_of_isParent (s.isParent_iff.2 hparent)
      obtain ⟨b, rfl⟩ : ∃ b', b = b' + 1 := Nat.exists_eq_add_one.2 (by omega)
      simp only [chainFrom, hparent]
      rw [ih (b := b) (by omega) (by omega)]

/-- A look-up asks the frame, and then its parent. -/
lemma lookup_eq : s.lookup f name =
    (s.binding? f name).or ((s.parent? f).bind fun p => s.lookup p name) := by
  cases hparent : s.parent? f with
  | none =>
    have hchain : s.chain f = [f] := by
      rw [chain, s.chainFrom_eq (Nat.le_refl f) (Nat.le_succ f), chainFrom, hparent]
    rw [lookup, hchain]
    cases hbinding : s.binding? f name <;> simp [hbinding]
  | some p =>
    have hp := s.parent_lt_of_isParent (s.isParent_iff.2 hparent)
    have hchain : s.chain f = f :: s.chain p := by
      rw [chain, s.chainFrom_eq (Nat.le_refl f) (Nat.le_succ f), chainFrom, hparent]
      exact congrArg (f :: ·) (s.chainFrom_eq (Nat.le_of_lt hp) (Nat.le_refl p))
    rw [lookup, hchain, List.findSome?_cons]
    cases hbinding : s.binding? f name <;> simp [lookup]

/-- Nothing is found if no frame on the chain binds the name. -/
lemma lookup_eq_none_iff : s.lookup f name = none ↔
    ∀ g, Leads s.tree f g → s.binding? g name = none := by
  induction f using Nat.strongRecOn with
  | ind f ih =>
    rw [lookup_eq, Option.or_eq_none_iff]
    constructor
    · rintro ⟨hf, hup⟩ g hg
      rcases Relation.ReflTransGen.cases_head hg with rfl | ⟨p, hp, hpg⟩
      · exact hf
      · rw [s.isParent_iff.1 hp, Option.bind_some] at hup
        exact (ih p (s.parent_lt_of_isParent hp)).1 hup g hpg
    · intro hnone
      refine ⟨hnone f .refl, ?_⟩
      cases hparent : s.parent? f with
      | none => rfl
      | some p =>
        have hp : IsParent s.tree f p := s.isParent_iff.2 hparent
        exact (ih p (s.parent_lt_of_isParent hp)).2 fun g hg => hnone g (.head hp hg)

/-- A look-up takes the nearest frame on the chain that binds the name. -/
lemma lookup_eq_some_iff {v : Value} : s.lookup f name = some v ↔
    ∃ g, Leads s.tree f g ∧ s.binding? g name = some v ∧
      ∀ k, Leads s.tree f k → Relation.TransGen (IsParent s.tree) k g →
        s.binding? k name = none := by
  induction f using Nat.strongRecOn with
  | ind f ih =>
    rw [lookup_eq]
    cases hf : s.binding? f name with
    | some w =>
      rw [Option.some_or]
      constructor
      · intro hw
        exact ⟨f, .refl, hf.trans hw, fun k hk hkf => absurd hkf (s.not_transGen_of_leads hk)⟩
      · rintro ⟨g, hg, hgv, hnearer⟩
        rcases Relation.ReflTransGen.cases_head hg with rfl | ⟨p, hp, hpg⟩
        · exact hf.symm.trans hgv
        · have hnone := hnearer f .refl (Relation.TransGen.head'_iff.2 ⟨p, hp, hpg⟩)
          simp [hf] at hnone
    | none =>
      rw [Option.none_or]
      constructor
      · intro hup
        obtain ⟨p, hparent, hlookup⟩ := Option.bind_eq_some_iff.1 hup
        have hp : IsParent s.tree f p := s.isParent_iff.2 hparent
        obtain ⟨g, hg, hgv, hnearer⟩ := (ih p (s.parent_lt_of_isParent hp)).1 hlookup
        refine ⟨g, .head hp hg, hgv, fun k hk hkg => ?_⟩
        rcases Relation.ReflTransGen.cases_head hk with rfl | ⟨q, hq, hqk⟩
        · exact hf
        · obtain rfl : q = p := by simpa [hparent] using (s.isParent_iff.1 hq).symm
          exact hnearer k hqk hkg
      · rintro ⟨g, hg, hgv, hnearer⟩
        rcases Relation.ReflTransGen.cases_head hg with rfl | ⟨p, hp, hpg⟩
        · simp [hf] at hgv
        · rw [s.isParent_iff.1 hp, Option.bind_some]
          exact (ih p (s.parent_lt_of_isParent hp)).2
            ⟨g, hpg, hgv, fun k hk => hnearer k (.head hp hk)⟩

/-- Frames that differ only behind a nearer binding of the name are the same to a look-up. -/
lemma lookup_congr {s' : Scopes} (htree : s'.tree = s.tree)
    (h : ∀ g, Leads s.tree f g → s'.binding? g name = s.binding? g name ∨
      ∃ k, Leads s.tree f k ∧ Relation.TransGen (IsParent s.tree) k g ∧ s.binding? k name ≠ none) :
    s'.lookup f name = s.lookup f name := by
  induction f using Nat.strongRecOn with
  | ind f ih =>
    have hf : s'.binding? f name = s.binding? f name := by
      rcases h f .refl with heq | ⟨k, hk, hkf, -⟩
      · exact heq
      · exact absurd hkf (s.not_transGen_of_leads hk)
    rw [lookup_eq, lookup_eq, hf, parent?_eq, parent?_eq, htree]
    cases hbinding : s.binding? f name with
    | some v => rfl
    | none =>
      cases hparent : s.tree[f]?.join with
      | none => rfl
      | some p =>
        have hp : IsParent s.tree f p := s.isParent_iff.2 (s.parent?_eq f ▸ hparent)
        refine ih p (s.parent_lt_of_isParent hp) fun g hg => ?_
        rcases h g (.head hp hg) with heq | ⟨k, hk, hkg, hbound⟩
        · exact .inl heq
        -- the nearer binding is not in `f`, so it is above `p`
        · rcases Relation.ReflTransGen.cases_head hk with rfl | ⟨q, hq, hqk⟩
          · exact absurd hbinding hbound
          · obtain rfl : q = p := by simpa [← s.parent?_eq, s.isParent_iff.1 hq] using hparent
            exact .inr ⟨k, hqk, hkg, hbound⟩

end Lookup

/-! ## Assignments -/

section Assignment

variable {changes : List Change} (h : Valid changes) {f g root : FrameId} {name other : String}
  (w : Value) (hg : g < (parents changes).length) (hroot : Leads (parents changes) g root)
  (htop : IsTop (parents changes) root)
include h hg hroot htop

/-- An assignment binds in the root of the tree, and nowhere else. -/
lemma after_set (name other : String) :
    (after (changes ++ [.set g other w])).tree = parents changes ∧
    ∀ i, (after (changes ++ [.set g other w])).binding? i name =
      if i = root ∧ Text.lower name = Text.lower other then some w
      else (after changes).binding? i name := by
  have htree := tree_after h
  have hnext : g < (after changes).nextId := by rwa [← length_tree, htree]
  have heq : root = (after changes).root g := by
    refine Leads.top_unique (f := g) ?_ ?_ hroot htop
    · rw [← htree]; exact leads_root _ g
    · rw [← htree]; exact isTop_root _ hnext
  have hlt : root < (after changes).nextId := by
    rw [heq]
    exact Nat.lt_of_le_of_lt (le_of_leads _ (leads_root _ g)) hnext
  rw [after_concat, Change.apply, set, ← heq, tree_define, htree]
  exact ⟨rfl, binding?_define _ hlt other name w⟩

/-- An assignment is seen from every frame of the tree in which the name is not shadowed. -/
lemma lookup_set_of_not_shadowed (hf : Leads (parents changes) f root)
    (hname : Text.lower name = Text.lower other)
    (hclear : ¬ Shadowed (parents changes) changes f name) :
    (after (changes ++ [.set g other w])).lookup f name = some w := by
  obtain ⟨htree, hbinding⟩ := after_set h w hg hroot htop name other
  rw [lookup_eq_some_iff, htree]
  refine ⟨root, hf, by rw [hbinding, if_pos ⟨rfl, hname⟩], fun k hk hkroot => ?_⟩
  have hktop : ¬ IsTop (parents changes) k := by
    intro hktop
    obtain ⟨p, hp, -⟩ := Relation.TransGen.head'_iff.1 hkroot
    exact hktop.not_isParent hp
  have hne : k ≠ root := fun heq => hktop (heq ▸ htop)
  rw [hbinding, if_neg fun hk => hne hk.1, binding?_after_eq_none h List.prefix_rfl]
  exact fun hbound => hclear ⟨k, hk, hktop, hbound⟩

/-- An assignment is not seen from anywhere else. -/
lemma lookup_set_of_shadowed (hother : Leads (parents changes) f root →
    Text.lower name = Text.lower other → Shadowed (parents changes) changes f name) :
    (after (changes ++ [.set g other w])).lookup f name = (after changes).lookup f name := by
  obtain ⟨htree, hbinding⟩ := after_set h w hg hroot htop name other
  have hsame := tree_after h
  refine lookup_congr _ (htree.trans hsame.symm) fun i hi => ?_
  rw [hsame] at hi ⊢
  rw [hbinding]
  split
  · next hi' =>
    obtain ⟨rfl, hname⟩ := hi'
    obtain ⟨k, hk, hktop, hbound⟩ := hother hi hname
    refine .inr ⟨k, hk, ?_, fun hnone => (binding?_after_eq_none h List.prefix_rfl).1 hnone hbound⟩
    -- the frames on a chain are ordered, and the root is the last one
    rcases Leads.total hk hi with hki | hik
    · rcases Relation.reflTransGen_iff_eq_or_transGen.1 hki with rfl | hlt
      · exact absurd htop hktop
      · exact hlt
    · exact absurd (Leads.eq_of_isTop hik htop ▸ htop) hktop
  · exact .inl rfl

end Assignment

/-! ## The reference semantics -/

/-- **A look-up finds the latest binding in the nearest frame** that has one. Names count as equal
if they are so in small letters; `define` binds in its frame and `set` in the root of its chain.
Nothing is found, and the complaint has the name as it was given, exactly if no frame of the chain
binds the name. So an assignment is seen from each frame of its tree, unless a nearer frame that is
no root binds the name, and from no other tree. -/
theorem lookup_finds_nearest {changes : List Change} (h : Valid changes) (f : FrameId)
    (name : String) :
    (∀ v, (after changes).lookup f name = some v ↔ Finds (parents changes) changes f name v) ∧
    ((after changes).lookup f name = none ↔ Unbound (parents changes) changes f name) ∧
    (∀ line v, (after changes).get f name line = .ok v ↔
      Finds (parents changes) changes f name v) ∧
    (∀ line e, (after changes).get f name line = .error e ↔
      e = .undefinedVariable name line ∧ Unbound (parents changes) changes f name) ∧
    ∀ g root other w, g < (parents changes).length → Leads (parents changes) g root →
      IsTop (parents changes) root →
      (Leads (parents changes) f root → Text.lower name = Text.lower other →
        ¬ Shadowed (parents changes) changes f name →
        (after (changes ++ [.set g other w])).lookup f name = some w) ∧
      (¬ Leads (parents changes) f root ∨ Text.lower name ≠ Text.lower other ∨
        Shadowed (parents changes) changes f name →
        (after (changes ++ [.set g other w])).lookup f name = (after changes).lookup f name) := by
  have hsome : ∀ v, (after changes).lookup f name = some v ↔
      Finds (parents changes) changes f name v := by
    intro v
    rw [lookup_eq_some_iff, tree_after h]
    simp only [binding?_after h List.prefix_rfl, binding?_after_eq_none h List.prefix_rfl, Finds]
  have hnone : (after changes).lookup f name = none ↔
      Unbound (parents changes) changes f name := by
    rw [lookup_eq_none_iff, tree_after h]
    simp only [binding?_after_eq_none h List.prefix_rfl, Unbound]
  refine ⟨hsome, hnone, fun line v => ?_, fun line e => ?_, ?_⟩
  · rw [← hsome, get]
    cases (after changes).lookup f name <;> simp
  · rw [← hnone, get]
    cases (after changes).lookup f name <;> simp [eq_comm]
  · intro g root other w hg hroot htop
    refine ⟨lookup_set_of_not_shadowed h w hg hroot htop, fun hother => ?_⟩
    refine lookup_set_of_shadowed h w hg hroot htop fun hf hname => ?_
    rcases hother with hf' | hname' | hshadowed
    · exact absurd hf hf'
    · exact absurd hname hname'
    · exact hshadowed

/-- Three frames below each other, the middle one of which binds a name that is then assigned to
from the lowest one, and a tree of its own. -/
def shadowing : List Change :=
  [.newRoot, .extend 0, .extend 1, .newRoot, .define 1 "Size" (.word "inner"),
    .set 2 "SIZE" (.word "outer")]

theorem lookup_finds_nearest_shadowing :
    Valid shadowing ∧
    Finds (parents shadowing) shadowing 2 "size" (.word "inner") ∧
    Finds (parents shadowing) shadowing 0 "size" (.word "outer") ∧
    Unbound (parents shadowing) shadowing 3 "size" :=
  have hvalid : Valid shadowing := by decide
  ⟨hvalid, ((lookup_finds_nearest hvalid 2 "size").1 _).1 rfl,
    ((lookup_finds_nearest hvalid 0 "size").1 _).1 rfl,
    (lookup_finds_nearest hvalid 3 "size").2.1.1 rfl⟩

end Logo.Scopes
