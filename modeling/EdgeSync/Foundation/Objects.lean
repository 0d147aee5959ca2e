/-
  Foundation/Objects.lean --- programs that acquire and release objects.

  Every object is made once and has a kind (memory, a semaphore, a handle).  Acquiring one
  may fail, releasing one that is not held is a fault.  A program that is specified by what
  it holds before and after can be composed with any frame, and a sum of objects is what it
  holds: nothing leaks and nothing is released twice.
-/
import EdgeSync.Foundation.Wp
import Mathlib.Algebra.Order.Group.Multiset

set_option autoImplicit false

namespace EdgeSync.Foundation

/-- An object of a kind. -/
structure Object (K : Type) where
  id : Nat
  kind : K
  deriving DecidableEq

/-- A pointer that may be NULL. -/
abbrev Pointer (K : Type) : Type := Option (Object K)

/-- What a pointer holds. -/
def Pointer.held {K : Type} : Pointer K → Multiset (Object K)
  | none => 0
  | some object => {object}

@[simp] theorem Pointer.held_none {K : Type} : Pointer.held (none : Pointer K) = 0 := rfl

@[simp] theorem Pointer.held_some {K : Type} (object : Object K) :
    Pointer.held (some object) = {object} := rfl

/-- The objects that were made and not released, and how often one was released that was
not held. -/
structure Objects (K : Type) where
  live : Multiset (Object K)
  made : Nat
  faults : Nat

/-- No object was made. -/
def Objects.initial (K : Type) : Objects K := ⟨0, 0, 0⟩

/-- What a program asks for.  `consult` is any other call that may fail. -/
inductive ObjectCall (K : Type) where
  | acquire (kind : K)
  | release (object : Object K)
  | consult

/-- What it is told. -/
def ObjectReply {K : Type} : ObjectCall K → Type
  | .acquire _ => Pointer K
  | .release _ => Unit
  | .consult => Bool

/-- Whether a call works. -/
inductive ObjectEvent where
  | works
  | fails
  deriving DecidableEq

section Objects

variable {K : Type} [DecidableEq K]

/-- What a call does. -/
def Objects.respond (d : Objects K) :
    (c : ObjectCall K) → ObjectEvent → Response (Objects K) (ObjectReply c)
  | .acquire kind, .works =>
      .reply (some ⟨d.made, kind⟩) ⟨⟨d.made, kind⟩ ::ₘ d.live, d.made + 1, d.faults⟩
  | .acquire _, .fails => .reply none d
  | .release object, _ =>
      if object ∈ d.live then .reply () { d with live := d.live.erase object }
      else .reply () { d with faults := d.faults + 1 }
  | .consult, event => .reply (event = .works : Bool) d

variable (K) in
/-- The device that hands out objects. -/
def objectDevice : Device (ObjectCall K) ObjectReply (Objects K) ObjectEvent where
  respond := Objects.respond
  calm := .works

/-- Any call may fail. -/
def anyEvent : Env (ObjectCall K) (Objects K) ObjectEvent := fun _ _ _ => True

/-- Programs with objects. -/
abbrev ObjectProg (K ε α : Type) : Type := Prog (ObjectCall K) ObjectReply Unit ε α

variable {ε α : Type}

/-- Make an object; NULL where that fails. -/
def acquire (kind : K) : ObjectProg K ε (Pointer K) := .call (.acquire kind) .ret

/-- Make an object, or fail with this error. -/
def require (kind : K) (err : ε) : ObjectProg K ε (Object K) :=
  (acquire kind).bind fun
    | none => .fail err
    | some object => .ret object

/-- Release an object. -/
def release (object : Object K) : ObjectProg K ε Unit := .call (.release object) .ret

/-- Release what the pointers point to, in order. -/
def releaseAll : List (Pointer K) → ObjectProg K ε Unit
  | [] => .ret ()
  | none :: rest => releaseAll rest
  | some object :: rest => (release object).bind fun _ => releaseAll rest

/-- A call that may fail with this error. -/
def consult (err : ε) : ObjectProg K ε Unit :=
  .call .consult fun worked => bif worked then .ret () else .fail err

/-- These objects are held, and none was released without being held. -/
structure Objects.Owns (d : Objects K) (objects : Multiset (Object K)) : Prop where
  live : d.live = objects
  clean : d.faults = 0

section Rules

variable {d : Objects K} {frame : Multiset (Object K)} {P : Post Unit (Objects K) ε α}

omit [DecidableEq K] in
theorem initial_owns : (Objects.initial K).Owns 0 := ⟨rfl, rfl⟩

omit [DecidableEq K] in
theorem Objects.Owns.congr {objects objects' : Multiset (Object K)} (h : d.Owns objects)
    (heq : objects = objects') : d.Owns objects' := heq ▸ h

theorem wp_acquire {kind : K} {P : Post Unit (Objects K) ε (Pointer K)} (h : d.Owns frame)
    (hP : ∀ pointer d', (∀ object ∈ pointer, object.kind = kind) →
      d'.Owns (pointer.held + frame) → P.ok pointer () d') :
    wp (objectDevice K) anyEvent (acquire kind) P () d := by
  refine wp_call.mpr fun event _ => ?_
  cases event with
  | works =>
    refine wp_ret.mpr (hP (some ⟨d.made, kind⟩) _ (fun object hobject => ?_)
      ⟨by rw [h.live]; rfl, h.clean⟩)
    rw [← Option.some.inj hobject]
  | fails =>
    exact wp_ret.mpr (hP none d (fun _ hobject => by cases hobject) (h.congr (zero_add frame).symm))

theorem wp_require {kind : K} {err : ε} {P : Post Unit (Objects K) ε (Object K)} (h : d.Owns frame)
    (hok : ∀ object d', d'.Owns ({object} + frame) → P.ok object () d')
    (herror : ∀ d', d'.Owns frame → P.error err () d') :
    wp (objectDevice K) anyEvent (require kind err) P () d := by
  refine wp_bind.mpr (wp_acquire h fun pointer d' _ hd' => ?_)
  cases pointer with
  | none => exact wp_fail.mpr (herror d' (hd'.congr (zero_add frame)))
  | some object => exact wp_ret.mpr (hok object d' hd')

theorem wp_release {object : Object K} {P : Post Unit (Objects K) ε Unit}
    (h : d.Owns ({object} + frame)) (hP : ∀ d', d'.Owns frame → P.ok () () d') :
    wp (objectDevice K) anyEvent (release object) P () d := by
  refine wp_call.mpr fun event _ => ?_
  have hmem : object ∈ d.live := by
    rw [h.live]
    exact Multiset.mem_add.mpr (.inl (Multiset.mem_singleton_self object))
  have hrespond : (objectDevice K).respond d (.release object) event =
      .reply () { d with live := d.live.erase object } := by
    show (if object ∈ d.live then _ else _) = _
    rw [if_pos hmem]
  rw [hrespond]
  refine wp_ret.mpr (hP _ ⟨?_, h.clean⟩)
  show d.live.erase object = frame
  rw [h.live, Multiset.singleton_add, Multiset.erase_cons_head]

variable (frame) in
/-- Releasing everything leaves the frame. -/
theorem wp_releaseAll {pointers : List (Pointer K)} {P : Post Unit (Objects K) ε Unit}
    (h : d.Owns ((pointers.map Pointer.held).sum + frame))
    (hP : ∀ d', d'.Owns frame → P.ok () () d') :
    wp (objectDevice K) anyEvent (releaseAll pointers) P () d := by
  induction pointers generalizing d with
  | nil => exact wp_ret.mpr (hP d (h.congr (zero_add frame)))
  | cons pointer rest ih =>
    rw [List.map_cons, List.sum_cons, add_assoc] at h
    cases pointer with
    | none => exact ih (h.congr (zero_add _))
    | some object => exact wp_bind.mpr (wp_release h fun d' hd' => ih hd')

theorem wp_consult {err : ε} {P : Post Unit (Objects K) ε Unit} (hok : P.ok () () d)
    (herror : P.error err () d) : wp (objectDevice K) anyEvent (consult err) P () d := by
  refine wp_call.mpr fun event _ => ?_
  cases event with
  | works => exact wp_ret.mpr hok
  | fails => exact wp_fail.mpr herror

end Rules

/-! ## Every object is made once -/

/-- The objects have ids of their own, which will not be given again. -/
structure Objects.Distinct (d : Objects K) : Prop where
  nodup : d.live.Nodup
  made : ∀ object ∈ d.live, object.id < d.made

omit [DecidableEq K] in
theorem initial_distinct : (Objects.initial K).Distinct :=
  ⟨Multiset.nodup_zero, fun _ h => absurd h (Multiset.notMem_zero _)⟩

/-- What a call leaves. -/
def Response.device {δ ρ : Type} : Response δ ρ → δ
  | .reply _ d => d
  | .cut d => d

theorem Objects.Distinct.respond {d : Objects K} (h : d.Distinct) (c : ObjectCall K)
    (event : ObjectEvent) : (d.respond c event).device.Distinct := by
  cases c with
  | acquire kind =>
    cases event with
    | works =>
      refine ⟨Multiset.nodup_cons.mpr ⟨fun hmem => ?_, h.nodup⟩, fun object hobject => ?_⟩
      · exact absurd (h.made _ hmem) (Nat.lt_irrefl _)
      · rcases Multiset.mem_cons.mp hobject with rfl | hobject
        · exact Nat.lt_succ_self _
        · exact Nat.lt_succ_of_lt (h.made _ hobject)
    | fails => exact h
  | release object =>
    have hrespond : d.respond (.release object) event =
        if object ∈ d.live then .reply () { d with live := d.live.erase object }
        else .reply () { d with faults := d.faults + 1 } := rfl
    rw [hrespond]
    split
    · exact ⟨h.nodup.erase object, fun x hx => h.made x (Multiset.mem_of_mem_erase hx)⟩
    · exact ⟨h.nodup, h.made⟩
  | consult => exact h

/-- No program makes an object twice. -/
theorem Objects.Distinct.runs {x : ObjectProg K ε α} {ram : Unit} {d : Objects K}
    {out : Outcome Unit (Objects K) ε α} (run : Runs (objectDevice K) anyEvent x ram d out)
    (h : d.Distinct) : out.dev.Distinct := by
  induction run with
  | ret value ram d => exact h
  | fail err ram d => exact h
  | look rest ih => exact ih h
  | put rest ih => exact ih h
  | @reply c k ram d d' event r out allowed answer rest ih =>
    have hd := h.respond c event
    rw [show d.respond c event = .reply r d' from answer] at hd
    exact ih hd
  | @cut c k ram d d' event allowed answer =>
    have hd := h.respond c event
    rw [show d.respond c event = .cut d' from answer] at hd
    exact hd

end Objects

end EdgeSync.Foundation
