import ScriptBundler.Proofs.Script.Extents
import ScriptBundler.Proofs.Text.Snippets
import ScriptBundler.Script.Names

/-!
# Places of names and scopes

Later passes know a name by its extent, and a node that opens a scope by its kind and extent.  This
is enough to tell them apart: the names of a statement stand apart from each other, and no two of
its nodes open a scope under one key.

For every step of the grammar we say between which two offsets the names and scopes of its result
lie.  A function starts where its first parameter or its keyword does, and everything in it that
opens a scope starts later.  The order of the walk does not matter, so that the members of a class
may come before the expression after `extends`.
-/

namespace ScriptBundler
namespace Script

open Text Std.Do

set_option mvcgen.warning false

/-- A place that later passes look up: a name, or a node that opens a scope. -/
inductive Site where
  | name (id : Ident)
  | scope (key : ScopeKey)

/-- The place that a node is, if it is one. -/
def Node.sites : Node → List Site
  | .ident id | .shorthand id => [.name id]
  | .function _ _ _ span => [.scope ⟨.function, span⟩]
  | .block span => [.scope ⟨.block, span⟩]
  | .catchClause _ span => [.scope ⟨.catchClause, span⟩]
  | .variableDecl _ _ _ | .classDecl _ | .importDecl _ _ | .assign _ _ _ | .update _ _ _
  | .call _ _ => []

mutual

/-- The places in an outline, in the order of the walk. -/
def Outline.sites : Outline → List Site
  | .node shape parts => shape.sites ++ Outline.sitesOf parts

/-- The places in outlines. -/
def Outline.sitesOf : List Outline → List Site
  | [] => []
  | first :: rest => first.sites ++ Outline.sitesOf rest

end

attribute [grind =] Node.sites Outline.sites Outline.sitesOf Outline.leaf

theorem Outline.sitesOf_eq_flatMap (forest : List Outline) :
    Outline.sitesOf forest = forest.flatMap Outline.sites := by
  induction forest with
  | nil => rfl
  | cons first rest ih => rw [Outline.sitesOf, ih, List.flatMap_cons]

@[grind =] theorem Outline.sitesOf_append (left right : List Outline) :
    Outline.sitesOf (left ++ right) = Outline.sitesOf left ++ Outline.sitesOf right := by
  simp only [sitesOf_eq_flatMap, List.flatMap_append]

open Outline (sitesOf)

/-- Whether a place lies between two offsets of a source.  A name is not empty, and does not cut a
character. -/
def Site.Lies (source : List Char) (start stop : Nat) : Site → Prop
  | .name id => start ≤ id.span.start ∧ id.span.start < id.span.stop ∧ id.span.stop ≤ stop ∧
      Boundary source id.span.start ∧ Boundary source id.span.stop
  | .scope key => start ≤ key.span.start ∧ key.span.start < stop

/-- Whether two places cannot be taken for each other: names do not overlap, and nodes that open
scopes have different keys. -/
def Site.Apart : Site → Site → Prop
  | .name id, .name other => id.span.stop ≤ other.span.start ∨ other.span.stop ≤ id.span.start
  | .scope key, .scope other => key ≠ other
  | _, _ => True

theorem Site.Apart.symm {site other : Site} (hapart : site.Apart other) : other.Apart site := by
  cases site <;> cases other
  · exact Or.symm hapart
  · trivial
  · trivial
  · exact Ne.symm hapart

/-- Whether places lie between two offsets, apart from each other. -/
structure Arranged (source : List Char) (start stop : Nat) (sites : List Site) : Prop where
  lies : ∀ site ∈ sites, site.Lies source start stop
  apart : sites.Pairwise Site.Apart

/-- Whether all scopes among some places open behind an offset. -/
def Late (start : Nat) (sites : List Site) : Prop :=
  ∀ key, Site.scope key ∈ sites → start < key.span.start

variable {source : List Char} {start middle later stop : Nat} {sites others : List Site}

theorem Site.Lies.mono {site : Site} (hlies : site.Lies source middle later)
    (hstart : start ≤ middle)
    (hstop : later ≤ stop) : site.Lies source start stop := by
  cases site with
  | name id =>
      obtain ⟨hlower, hlt, hupper, hplaces⟩ := hlies
      exact ⟨by omega, hlt, by omega, hplaces⟩
  | scope key =>
      obtain ⟨hlower, hupper⟩ := hlies
      exact ⟨by omega, by omega⟩

theorem Site.Lies.apart {site other : Site} (hsite : site.Lies source start middle)
    (hother : other.Lies source later stop) (hle : middle ≤ later) : site.Apart other := by
  cases site with
  | name id =>
      cases other with
      | name => exact Or.inl (Nat.le_trans hsite.2.2.1 (Nat.le_trans hle hother.1))
      | scope => trivial
  | scope key =>
      cases other with
      | name => trivial
      | scope other =>
          rintro rfl
          have := hsite.2
          have := hother.1
          omega

namespace Arranged

theorem mono (hsites : Arranged source middle later sites) (hstart : start ≤ middle)
    (hstop : later ≤ stop) : Arranged source start stop sites :=
  ⟨fun site hsite => (hsites.lies site hsite).mono hstart hstop, hsites.apart⟩

@[grind ←] theorem nil (source : List Char) (start stop : Nat) : Arranged source start stop [] :=
  ⟨by simp, .nil⟩

theorem perm (hsites : Arranged source start stop sites) (hperm : sites.Perm others) :
    Arranged source start stop others :=
  ⟨fun site hsite => hsites.lies site (hperm.mem_iff.mpr hsite),
    (hperm.pairwise_iff Site.Apart.symm).mp hsites.apart⟩

/-- Places that are read one after the other. -/
theorem append (hsites : Arranged source start middle sites)
    (hothers : Arranged source later stop others) (hle : middle ≤ later) (hstart : start ≤ later)
    (hstop : middle ≤ stop) : Arranged source start stop (sites ++ others) where
  lies := by
    intro site hsite
    rcases List.mem_append.mp hsite with hfirst | hsecond
    · exact (hsites.lies site hfirst).mono (Nat.le_refl _) hstop
    · exact (hothers.lies site hsecond).mono hstart (Nat.le_refl _)
  apart := List.pairwise_append.mpr ⟨hsites.apart, hothers.apart, fun site hsite other hother =>
    (hsites.lies site hsite).apart (hothers.lies other hother) hle⟩

/-- Places of which those that are read later come first in the walk. -/
theorem append_swap (hsites : Arranged source start middle sites)
    (hothers : Arranged source later stop others) (hle : middle ≤ later) (hstart : start ≤ later)
    (hstop : middle ≤ stop) : Arranged source start stop (others ++ sites) :=
  (hsites.append hothers hle hstart hstop).perm List.perm_append_comm

/-- A node that opens a scope, before places whose scopes open later. -/
theorem cons {key : ScopeKey} (hsites : Arranged source start stop sites)
    (hlate : Late key.span.start sites) (hstart : start ≤ key.span.start)
    (hstop : key.span.start < stop) : Arranged source start stop (.scope key :: sites) := by
  refine ⟨List.forall_mem_cons.mpr ⟨⟨hstart, hstop⟩, hsites.lies⟩,
    List.pairwise_cons.mpr ⟨fun site hsite => ?_, hsites.apart⟩⟩
  cases site with
  | name => trivial
  | scope other =>
      rintro rfl
      exact Nat.lt_irrefl _ (hlate key hsite)

theorem late (hsites : Arranged source middle stop sites) (hlt : start < middle) :
    Late start sites :=
  fun _ hkey => Nat.lt_of_lt_of_le hlt (hsites.lies _ hkey).1

/-- A node that opens a scope before its parts. -/
theorem opens {key : ScopeKey} (hsites : Arranged source middle later sites)
    (hlt : key.span.start < middle) (hstart : start ≤ key.span.start) (hstop : later ≤ stop)
    (hlt' : key.span.start < stop) :
    Arranged source start stop (.scope key :: sites) :=
  (hsites.mono (by omega) hstop).cons (hsites.late hlt) hstart hlt'

/-- A function that is declared: its name comes before the node of the function. -/
theorem declared {last : Nat} {key : ScopeKey} (hsites : Arranged source middle later sites)
    (hothers : Arranged source last stop others) (hlt : key.span.start < middle)
    (hle : later ≤ last) (hle' : middle ≤ last) (hstart : start ≤ key.span.start)
    (hstop : later ≤ stop) (hlt' : key.span.start < stop) :
    Arranged source start stop (sites ++ .scope key :: others) := by
  have hboth := hsites.append hothers hle hle' hstop
  exact ((hboth.mono (by omega) (Nat.le_refl _)).cons (hboth.late hlt) hstart hlt').perm
    List.perm_middle.symm

end Arranged

theorem Late.append (hsites : Late start sites) (hothers : Late start others) :
    Late start (sites ++ others) :=
  fun key hkey => (List.mem_append.mp hkey).elim (hsites key) (hothers key)

/-- An arrow function may start where its first parameter does. -/
theorem Arranged.arrow {key : ScopeKey} (hsites : Arranged source start middle sites)
    (hlate : Late start sites) (hothers : Arranged source later stop others)
    (hkey : key.span.start = start) (hlt : start < later) (hle : middle ≤ later)
    (hstop : middle ≤ stop) (hlt' : start < stop) :
    Arranged source start stop (.scope key :: (sites ++ others)) := by
  subst hkey
  exact (hsites.append hothers hle (Nat.le_of_lt hlt) hstop).cons
    (hlate.append (hothers.late hlt)) (Nat.le_refl _) hlt'

@[grind ←] theorem Late.name (start : Nat) (id : Ident) : Late start [.name id] :=
  fun _ hkey => by simp at hkey

grind_pattern Arranged.mono => Arranged source middle later sites, Arranged source start stop sites
grind_pattern Arranged.append =>
  Arranged source start middle sites, Arranged source later stop others, sites ++ others
grind_pattern Arranged.append_swap =>
  Arranged source start middle sites, Arranged source later stop others, others ++ sites
grind_pattern Arranged.late => Arranged source middle stop sites, Late start sites
grind_pattern Late.append => Late start (sites ++ others)
grind_pattern Arranged.opens => Arranged source middle later sites,
  Arranged source start stop (.scope key :: sites)
grind_pattern Arranged.declared => Arranged source middle later sites,
  Arranged source last stop others, Arranged source start stop (sites ++ .scope key :: others)
grind_pattern Arranged.arrow => Arranged source start middle sites, Late start sites,
  Arranged source later stop others, Site.scope key :: (sites ++ others)

/-! ## Places in syntax trees -/

attribute [grind =] Expr.outline Expr.outlines Expr.optionOutline Member.outline Member.outlines
  Pattern.outline Pattern.outlines Pattern.optionOutline Block.outline Stmt.outline Stmt.outlines
  Stmt.optionOutline

/-- The outline of the parameters and the body of a function. -/
@[grind =] def Function.parts : Function → List Outline
  | .block params body _ => Pattern.outlines params ++ [body.outline]
  | .value params result _ => Pattern.outlines params ++ result.outline

@[grind =] theorem Function.outline_eq (kind : FunctionKind) (name : Option Ident)
    (body : Function) :
    body.outline kind name = .node (.function kind name body.params body.span) body.parts := by
  cases body <;> rfl

@[grind =] theorem sitesOf_arrow_block (params : List Pattern) (body : Block) (span : Span) :
    sitesOf (Expr.arrow (.block params body span)).outline =
      .scope ⟨.function, span⟩ ::
        (sitesOf (Pattern.outlines params) ++ sitesOf [body.outline]) := by
  simp [Expr.outline, Function.outline, sitesOf, Outline.sites, Node.sites, Outline.sitesOf_append]

@[grind =] theorem sitesOf_arrow_value (params : List Pattern) (value : Expr) (span : Span) :
    sitesOf (Expr.arrow (.value params value span)).outline =
      .scope ⟨.function, span⟩ :: (sitesOf (Pattern.outlines params) ++ sitesOf value.outline) := by
  simp [Expr.outline, Function.outline, sitesOf, Outline.sites, Node.sites, Outline.sitesOf_append]

@[grind =] theorem sitesOf_declaration (name : Ident) (body : Function) :
    sitesOf (Stmt.function name body).outline =
      .name name :: .scope ⟨.function, body.span⟩ :: sitesOf body.parts := by
  simp [Stmt.outline, Function.outline_eq, sitesOf, Outline.sites, Outline.leaf, Node.sites]

@[grind =] theorem sitesOf_param (id : Ident) :
    sitesOf (Pattern.outlines [.ident id]) = [.name id] :=
  rfl

theorem sitesOf_exprOutlines (values : List Expr) :
    sitesOf (Expr.outlines values) = values.flatMap fun value => sitesOf value.outline := by
  induction values with
  | nil => rfl
  | cons first rest ih => rw [Expr.outlines, Outline.sitesOf_append, ih, List.flatMap_cons]

theorem sitesOf_memberOutlines (values : List Member) :
    sitesOf (Member.outlines values) = values.flatMap fun value => sitesOf value.outline := by
  induction values with
  | nil => rfl
  | cons first rest ih => rw [Member.outlines, Outline.sitesOf_append, ih, List.flatMap_cons]

theorem sitesOf_patternOutlines (values : List Pattern) :
    sitesOf (Pattern.outlines values) = values.flatMap fun value => sitesOf value.outline := by
  induction values with
  | nil => rfl
  | cons first rest ih => rw [Pattern.outlines, Outline.sitesOf_append, ih, List.flatMap_cons]

theorem sitesOf_stmtOutlines (values : List Stmt) :
    sitesOf (Stmt.outlines values) = values.flatMap fun value => sitesOf value.outline := by
  induction values with
  | nil => rfl
  | cons first rest ih => rw [Stmt.outlines, Outline.sitesOf_append, ih, List.flatMap_cons]

attribute [grind =] sitesOf_exprOutlines sitesOf_memberOutlines sitesOf_patternOutlines
  sitesOf_stmtOutlines

end Script
end ScriptBundler
