import FinmarsWorkflow.Chain.Halt
import FinmarsWorkflow.Interleave.Bags
import FinmarsWorkflow.Interleave.Simulation

/-! The members of a chain one after the other.
A launch posts one chain, and from then on the chain is a strand: the members that are
over, the pieces of the current one that are on their way, and the rest. Whatever is queued
or at work belongs to one strand, which goes on when the last piece of its current member
returns. A piece that fails, or is revoked, is lost. -/
namespace FinmarsWorkflow.Chain
open Interleave

/-- What the builder makes of an entry. -/
def Fits : Entry → Member → Prop
  | .single _,.step _ => True
  | .group names,.group celeries => celeries.length = names.length
  | _,_ => False

/-- The chain of a definition, with the hook that its plan carries. -/
structure Drawn (manifest : Manifest) (plan : Plan) (members : List Member) : Prop where
  hook : plan.failureHook = manifest.failure
  shape : ∃ before canvas link, members = (.start::(before ++ canvas ++ [.finish])) ++ link ∧
    List.Forall₂ Fits manifest.beforeStart.toList before ∧ List.Forall₂ Fits manifest.tasks canvas ∧
    List.Forall₂ Fits manifest.success.toList link

/-- A piece has returned. -/
def Returned (events : List (Origin × Work)) (delivery : Delivery) : Prop :=
  (.message (.member delivery),.complete delivery) ∈ events

/-- All pieces of a member have returned, each of which carried the rest of the chain. -/
def Over (events : List (Origin × Work)) (plan : Plan) (rest : List Member) : Member → Prop
  | .start => Returned events ⟨plan,.start,rest⟩
  | .step celery => Returned events ⟨plan,.step celery,rest⟩
  | .group celeries => ∃ chord, ∀ celery ∈ celeries, Returned events ⟨plan,.part celery chord,rest⟩
  | .finish => Returned events ⟨plan,.finish,rest⟩

/-- Members of a chain that are over, in their places before the rest of it. -/
def Through (events : List (Origin × Work)) (plan : Plan) (rest : List Member) : List Member → Prop
  | [] => True
  | member::done => Over events plan (done ++ rest) member ∧ Through events plan rest done

def Member.Has : Member → Piece → Prop
  | .start,.start | .finish,.finish => True
  | .step celery,.step other => celery = other
  | .group celeries,.part celery _ => celery ∈ celeries
  | _,_ => False

/-- A piece has failed, or is revoked. -/
def Fails (events : List (Origin × Work)) (broker : Broker) (delivery : Delivery) : Prop :=
  (.message (.member delivery),.errback delivery.plan) ∈ events ∨ broker.revoked? delivery.piece.celery = true

/-- A piece of a chain has failed, or is revoked. -/
def Faltered (events : List (Origin × Work)) (broker : Broker) (plan : Plan) (members : List Member) : Prop :=
  ∃ piece rest, (∃ member ∈ members, member.Has piece) ∧ Fails events broker ⟨plan,piece,rest⟩

section launch
variable {manifest : Manifest}

/-- A launch stores what it likes before it posts one chain, of its definition, and then it ends. -/
def Launching (manifest : Manifest) : Chained Unit → Prop
  | .pure _ | .raise _ => True
  | .step work next => ((∃ operation, work = .tenant operation) ∧ ∀ s b, Launching manifest (next s b)) ∨
    (∃ plan members, work = .post plan members ∧ Drawn manifest plan members) ∧ ∀ s b, next s b = .pure ()

def Stores (work : Work) : Prop := ∃ operation, work = .tenant operation

theorem tenant_stores {α : Type} (program : Prog α) :
    (tenant program).Ensures (fun _ => True) Stores (fun _ => True) := by
  induction program with
  | pure | raise => trivial
  | step operation next ih => exact ⟨⟨operation,rfl⟩,fun s b _ => ih s.db b⟩

theorem Launching.bind {α : Type} {program : Chained α} {next : α → Chained Unit} {post : α → Prop}
    (stores : program.Ensures (fun _ => True) Stores (fun result => ∀ value, result = .ok value → post value))
    (launches : ∀ value, post value → Launching manifest (next value)) : Launching manifest (program.bind next) := by
  induction program with
  | pure value => exact launches value (stores value rfl)
  | raise => trivial
  | step work rest ih => exact .inl ⟨stores.1,fun s b => ih s b (stores.2 s b trivial)⟩

theorem newTasks_fits (workflow : WorkflowId) (row : Workflow) (names : List String) :
    (newTasks workflow row names).Ensures (fun _ => True) Stores
      (fun result => ∀ celeries, result = .ok celeries → celeries.length = names.length) := by
  induction names with
  | nil =>
    intro celeries same
    cases same
    rfl
  | cons name names ih =>
    refine (tenant_stores _).bind (fun celery _ => ?_) (fun error _ celeries same => by cases same)
    refine ih.bind (fun celeries length others same => ?_) (fun error _ celeries same => by cases same)
    cases same
    exact congrArg (· + 1) (length celeries rfl)

theorem parseFlatTasks_fits (workflow : WorkflowId) (row : Workflow) (tasks : List Entry) :
    (parseFlatTasks workflow row tasks).Ensures (fun _ => True) Stores
      (fun result => ∀ canvas, result = .ok canvas → List.Forall₂ Fits tasks canvas) := by
  induction tasks with
  | nil =>
    intro canvas same
    cases same
    exact .nil
  | cons entry tasks ih =>
    cases entry with
    | single name =>
      refine (tenant_stores _).bind (fun celery _ => ?_) (fun error _ canvas same => by cases same)
      refine ih.bind (fun canvas fits members same => ?_) (fun error _ canvas same => by cases same)
      cases same
      exact .cons trivial (fits canvas rfl)
    | group names =>
      refine (newTasks_fits workflow row names).bind (fun celeries length => ?_) (fun error _ canvas same => by cases same)
      refine ih.bind (fun canvas fits members same => ?_) (fun error _ canvas same => by cases same)
      cases same
      exact .cons (length celeries rfl) (fits canvas rfl)
    | other =>
      intro canvas same
      cases same

theorem executeWorkflow_launching (userCode : String) (payload : Json) (space : SpaceId) (platformTaskId : Option Int) :
    Launching manifest (executeWorkflow userCode payload space platformTaskId manifest) := by
  have stored {α : Type} (program : Prog α) : (tenant program).Ensures (fun _ => True) Stores
      (fun result => ∀ value, result = .ok value → True) :=
    (tenant_stores program).mono (fun _ holds => holds) (fun _ holds => holds) (fun _ _ _ _ => trivial)
  refine Launching.bind (stored _) (fun template _ => Launching.bind (stored _) (fun workflow _ =>
    Launching.bind (stored _) (fun row _ => ?_)))
  have built : (build workflow row manifest).Ensures (fun _ => True) Stores (fun result => ∀ members, result = .ok members →
      ∃ before canvas, members = .start::(before ++ canvas ++ [.finish]) ∧
        List.Forall₂ Fits manifest.beforeStart.toList before ∧ List.Forall₂ Fits manifest.tasks canvas) := by
    refine (parseFlatTasks_fits workflow row manifest.tasks).bind (fun canvas tasks => ?_) (fun error _ members same => by cases same)
    refine (parseFlatTasks_fits workflow row manifest.beforeStart.toList).bind (fun before hook members same => ?_)
      (fun error _ members same => by cases same)
    cases same
    exact ⟨before,canvas,rfl,hook before rfl,tasks canvas rfl⟩
  refine Launching.bind built (fun members shape => ?_)
  refine Launching.bind (parseFlatTasks_fits workflow row manifest.success.toList) (fun link success => ?_)
  obtain ⟨before,canvas,rfl,hook,tasks⟩ := shape
  refine .inl ⟨⟨_,rfl⟩,fun broker outside => ?_⟩
  dsimp only
  cases outside.outcome with
  | ok => exact .inr ⟨⟨_,_,rfl,rfl,before,canvas,link,rfl,hook,tasks,success⟩,fun _ _ => rfl⟩
  | error error =>
    refine Launching.bind (stored _) (fun _ _ => ?_)
    trivial

/-- The chain that a program posts, if it posts one. -/
def posts (outside : Outside) : Chained Unit → Broker → Option (Plan × List Member)
  | .pure _,_ | .raise _,_ => none
  | .step (.post plan members) _,_ => some (plan,members)
  | .step work next,broker => posts outside (next broker outside) (work.effect broker)

/-- What a launch does to the broker, beside the rows of the tenant. -/
theorem launching_run {program : Chained Unit} (launching : Launching manifest program) (outside : Outside) (broker : Broker) :
    ∃ middle, middle.queue = broker.queue ∧ middle.revoked = broker.revoked ∧ middle.chords = broker.chords ∧
      ((posts outside program broker = none ∧ (program.run Work.effect outside broker).2 = middle) ∨
        ∃ plan members, posts outside program broker = some (plan,members) ∧ Drawn manifest plan members ∧
          (program.run Work.effect outside broker).2 = middle.post plan members) := by
  induction program generalizing broker with
  | pure | raise => exact ⟨broker,rfl,rfl,rfl,.inl ⟨rfl,rfl⟩⟩
  | step work next ih =>
    rcases launching with ⟨⟨operation,rfl⟩,rest⟩ | ⟨⟨plan,members,rfl,drawn⟩,ends⟩
    · obtain ⟨middle,queue,revoked,chords,reached⟩ := ih broker outside (rest broker outside)
        ((Work.tenant operation).effect broker)
      exact ⟨middle,queue,revoked,chords,reached⟩
    · refine ⟨broker,rfl,rfl,rfl,.inr ⟨plan,members,rfl,drawn,?_⟩⟩
      rw [Program.run_step,ends]
      rfl

end launch

section workers

/-- A worker that sends no more members of chains. -/
def Settled (program : Chained Unit) : Prop := program.Ensures (fun _ => True) Foreign (fun _ => True)

/-- A worker on a piece that has not returned or failed yet, and will. -/
def Owes (delivery : Delivery) : Chained Unit → Prop
  | .pure _ | .raise _ => False
  | .step work next => (Stores work ∧ ∀ s b, Owes delivery (next s b)) ∨
    (work = .complete delivery ∨ work = .errback delivery.plan) ∧ ∀ s b, Settled (next s b)

theorem Owes.tenant {α : Type} {delivery : Delivery} {program : Prog α} {next : Except Error α → Chained Unit}
    (owes : ∀ result, Owes delivery (next result)) : Owes delivery ((tenant program).outcome.bind next) := by
  induction program with
  | pure value => exact owes (.ok value)
  | raise error => exact owes (.error error)
  | step operation rest ih => exact .inl ⟨⟨operation,rfl⟩,fun s b => ih s.db b⟩

theorem owes_runBound (delivery : Delivery) (body : Prog Unit) : Owes delivery (runBound delivery body) := by
  refine Owes.tenant (fun result => ?_)
  cases result with
  | ok => exact .inr ⟨.inl rfl,fun _ _ => trivial⟩
  | error error => exact .inr ⟨.inr rfl,fun _ _ => trivial⟩

theorem owes_runStep (definitions : Definitions) (delivery : Delivery) (celery : CeleryId) :
    Owes delivery (runStep definitions delivery celery) := by
  refine Owes.tenant (fun result => ?_)
  cases result with
  | error error => exact .inr ⟨.inr rfl,fun _ _ => foreign_tenant _⟩
  | ok retval =>
    refine .inr ⟨.inl rfl,fun _ _ => ?_⟩
    refine ((foreign_tenant _).outcome (fun _ _ => trivial)).andThen (fun result => ?_)
    cases result with
    | ok => trivial
    | error error => exact foreign_tenant _

theorem owes_runMember (definitions : Definitions) (delivery : Delivery) : Owes delivery (runMember definitions delivery) := by
  unfold runMember
  split
  · exact owes_runBound delivery _
  · exact owes_runBound delivery _
  · exact owes_runStep definitions delivery _
  · exact owes_runStep definitions delivery _

/-- What a thread has in hand. -/
def InHand (thread : Origin × Chained Unit) : Option Delivery → Prop
  | some delivery => thread.1 = .message (.member delivery) ∧ Owes delivery thread.2
  | none => Settled thread.2

end workers

section strands

/-- What of a member is on its way: a single piece, or the parts of a chord that have not
returned, of which some never will. -/
inductive Stage where
  | lone (piece : Piece) (pending : Bool)
  | chord (index : Nat) (celeries pending lost : List CeleryId)
  | ended

/-- A chain on its way. -/
structure Strand where
  plan : Plan
  done : List Member
  stage : Stage
  rest : List Member

/-- The member that a piece is all of. -/
def Piece.whole : Piece → Option Member
  | .start => some .start
  | .step celery => some (.step celery)
  | .part _ _ => none
  | .finish => some .finish

def Stage.members : Stage → List Member
  | .lone piece _ => piece.whole.toList
  | .chord _ celeries _ _ => [.group celeries]
  | .ended => []

def Stage.chord? : Stage → Option Nat
  | .chord index _ _ _ => some index
  | .lone _ _ | .ended => none

namespace Strand

def chord? (strand : Strand) : Option Nat := strand.stage.chord?

def members (strand : Strand) : List Member := strand.done ++ strand.stage.members ++ strand.rest

/-- What is queued or at work for a strand. -/
def flight (strand : Strand) : List Delivery := match strand.stage with
  | .lone piece pending => if pending then [⟨strand.plan,piece,strand.rest⟩] else []
  | .chord index _ pending _ => pending.map (fun celery => ⟨strand.plan,.part celery index,strand.rest⟩)
  | .ended => []

/-- The strand of members that are posted after others are over. -/
def posted (plan : Plan) (chord : Nat) (done : List Member) : List Member → Strand
  | [] => ⟨plan,done,.ended,[]⟩
  | .start::rest => ⟨plan,done,.lone .start true,rest⟩
  | .step celery::rest => ⟨plan,done,.lone (.step celery) true,rest⟩
  | .finish::rest => ⟨plan,done,.lone .finish true,rest⟩
  | .group celeries::rest =>
    if celeries = [] then posted plan chord (done ++ [.group celeries]) rest
    else ⟨plan,done,.chord chord celeries celeries [],rest⟩

/-- Where a strand stands: the chord of its group counts the parts that have not returned. -/
def Stands (events : List (Origin × Work)) (broker : Broker) (strand : Strand) : Prop := match strand.stage with
  | .lone piece pending => piece.whole.isSome ∧ (pending = false → Faltered events broker strand.plan strand.members)
  | .chord index celeries pending lost => broker.chords[index]? = some (pending.length + lost.length) ∧
    0 < pending.length + lost.length ∧ (lost ≠ [] → Faltered events broker strand.plan strand.members) ∧
    (∀ celery ∈ pending, celery ∈ celeries) ∧
    ∀ celery ∈ celeries, celery ∈ pending ∨ celery ∈ lost ∨ Returned events ⟨strand.plan,.part celery index,strand.rest⟩
  | .ended => strand.rest = []

structure Sound (events : List (Origin × Work)) (broker : Broker) (strand : Strand) : Prop where
  done : Through events strand.plan (strand.stage.members ++ strand.rest) strand.done
  stands : strand.Stands events broker

/-- A strand later on. -/
structure Becomes (strand later : Strand) : Prop where
  plan : later.plan = strand.plan
  members : later.members = strand.members

/-- A delivery of the strand, to which all members before its own are over. -/
structure Delivers (events : List (Origin × Work)) (strand : Strand) (delivery : Delivery) : Prop where
  plan : strand.plan = delivery.plan
  turn : ∃ before member, strand.members = before ++ member::delivery.rest ∧ member.Has delivery.piece ∧
    Through events delivery.plan (member::delivery.rest) before

end Strand

/-- The pieces that are queued. -/
def waiting (queue : List Message) : List Delivery := queue.filterMap (fun message => (Origin.message message).delivery?)

variable {plan : Plan} {events more : List (Origin × Work)} {broker other : Broker} {strand : Strand} {delivery : Delivery}

theorem Over.mono {rest : List Member} {member : Member} (passed : Over events plan rest member) (grows : events ⊆ more) :
    Over more plan rest member := by
  cases member with
  | start | step | finish => exact grows passed
  | group celeries => exact passed.imp (fun _ parts celery among => grows (parts celery among))

theorem Through.mono {rest done : List Member} (through : Through events plan rest done) (grows : events ⊆ more) :
    Through more plan rest done := by
  induction done with
  | nil => trivial
  | cons member done ih => exact ⟨through.1.mono grows,ih through.2⟩

theorem Through.append {rest done others : List Member} (through : Through events plan (others ++ rest) done)
    (further : Through events plan rest others) : Through events plan rest (done ++ others) := by
  induction done with
  | nil => exact further
  | cons member done ih => exact ⟨(List.append_assoc done others rest).symm ▸ through.1,ih through.2⟩

theorem Fails.mono (fails : Fails events broker delivery) (grows : events ⊆ more) (revoked : broker.revoked ⊆ other.revoked) :
    Fails more other delivery := fails.imp (fun inside => grows inside) (revoked_mono revoked)

theorem Faltered.mono {members : List Member} (faltered : Faltered events broker plan members) (grows : events ⊆ more)
    (revoked : broker.revoked ⊆ other.revoked) : Faltered more other plan members := by
  obtain ⟨piece,rest,member,fails⟩ := faltered
  exact ⟨piece,rest,member,fails.mono grows revoked⟩

namespace Strand

theorem Becomes.refl (strand : Strand) : strand.Becomes strand := ⟨rfl,rfl⟩

theorem Becomes.delivers {later : Strand} (becomes : strand.Becomes later) (delivers : strand.Delivers events delivery) :
    later.Delivers events delivery :=
  ⟨becomes.plan.trans delivers.plan,becomes.members ▸ delivers.turn⟩

theorem Delivers.mono (delivers : strand.Delivers events delivery) (grows : events ⊆ more) : strand.Delivers more delivery := by
  obtain ⟨before,member,shape,own,passed⟩ := delivers.turn
  exact ⟨delivers.plan,before,member,shape,own,passed.mono grows⟩

/-- A strand is not touched by what happens elsewhere. -/
theorem Stands.mono (stands : strand.Stands events broker) (grows : events ⊆ more) (revoked : broker.revoked ⊆ other.revoked)
    (chords : ∀ index, strand.chord? = some index → other.chords[index]? = broker.chords[index]?) :
    strand.Stands more other := by
  unfold Stands at stands ⊢
  split
  next piece pending stage =>
    rw [stage] at stands
    exact ⟨stands.1,fun gone => (stands.2 gone).mono grows revoked⟩
  next index celeries pending lost stage =>
    rw [stage] at stands
    obtain ⟨counts,some_,falters,parts,known⟩ := stands
    refine ⟨(chords index (by rw [chord?,stage]; rfl)).trans counts,some_,fun gone => (falters gone).mono grows revoked,parts,
      fun celery among => ?_⟩
    exact (known celery among).imp_right (Or.imp_right (fun returned => grows returned))
  next stage =>
    rw [stage] at stands
    exact stands

theorem Sound.mono (sound : strand.Sound events broker) (grows : events ⊆ more) (revoked : broker.revoked ⊆ other.revoked)
    (chords : ∀ index, strand.chord? = some index → other.chords[index]? = broker.chords[index]?) :
    strand.Sound more other :=
  ⟨sound.done.mono grows,sound.stands.mono grows revoked chords⟩

/-- Whatever is on its way for a strand is delivered when all before it is over. -/
theorem Sound.delivers (sound : strand.Sound events broker) (flies : delivery ∈ strand.flight) :
    strand.Delivers events delivery := by
  have stands := sound.stands
  unfold Stands at stands
  unfold flight at flies
  split at flies
  next piece pending stage =>
    rw [stage] at stands
    split at flies
    · cases List.mem_singleton.mp flies
      obtain ⟨member,whole⟩ := Option.isSome_iff_exists.mp stands.1
      have done := sound.done
      rw [stage,Stage.members,whole] at done
      refine ⟨rfl,strand.done,member,?_,?_,done⟩
      · simp only [members,stage,Stage.members,whole,Option.toList_some,List.append_assoc,List.singleton_append]
      · cases piece <;> cases whole <;> trivial
    · cases flies
  next index celeries pending lost stage =>
    rw [stage] at stands
    obtain ⟨celery,among,rfl⟩ := List.mem_map.mp flies
    have done := sound.done
    rw [stage] at done
    refine ⟨rfl,strand.done,.group celeries,?_,stands.2.2.2.1 celery among,done⟩
    simp only [members,stage,Stage.members,List.append_assoc,List.singleton_append]
  next => cases flies

section posted
variable {chord : Nat} {done members : List Member}

theorem posted_becomes : (posted plan chord done members).plan = plan ∧
    (posted plan chord done members).members = done ++ members := by
  induction members generalizing done with
  | nil => exact ⟨rfl,by simp [posted,Strand.members,Stage.members]⟩
  | cons first rest ih =>
    cases first with
    | start | step | finish =>
      exact ⟨rfl,by simp [posted,Strand.members,Stage.members,Piece.whole]⟩
    | group celeries =>
      unfold posted
      split
      · refine ⟨ih.1,ih.2.trans ?_⟩
        rw [List.append_assoc,List.singleton_append]
      · exact ⟨rfl,by simp [Strand.members,Stage.members]⟩

theorem posted_chord : (posted plan chord done members).chord? = none ∨
    (posted plan chord done members).chord? = some chord := by
  induction members generalizing done with
  | nil => exact .inl rfl
  | cons first rest ih =>
    cases first with
    | start | step | finish => exact .inl rfl
    | group celeries =>
      unfold posted
      split
      · exact ih
      · exact .inr rfl

theorem posted_waiting : waiting (broker.post plan members).queue =
    waiting broker.queue ++ (posted plan broker.chords.length done members).flight := by
  induction members generalizing done with
  | nil => exact (List.append_nil _).symm
  | cons first rest ih =>
    cases first with
    | start | step | finish => simp [Broker.post,Broker.push,waiting,posted,flight,Origin.delivery?]
    | group celeries =>
      unfold Broker.post posted
      split
      · exact ih
      · simp [waiting,flight,List.filterMap_map,Origin.delivery?]

theorem posted_chords : ∃ extra, (broker.post plan members).chords = broker.chords ++ extra := by
  induction members with
  | nil => exact ⟨[],(List.append_nil _).symm⟩
  | cons first rest ih =>
    cases first with
    | start | step | finish => exact ⟨[],(List.append_nil _).symm⟩
    | group celeries =>
      unfold Broker.post
      split
      · exact ih
      · exact ⟨[celeries.length],rfl⟩

theorem posted_sound (passed : Through events plan members done) :
    (posted plan broker.chords.length done members).Sound events (broker.post plan members) := by
  induction members generalizing done with
  | nil => exact ⟨passed,rfl⟩
  | cons first rest ih =>
    cases first with
    | start | step | finish =>
      refine ⟨passed,rfl,?_⟩
      intro gone
      cases gone
    | group celeries =>
      by_cases empty : celeries = []
      · have none : Over events plan rest (.group celeries) := ⟨0,fun celery inside => absurd inside (empty ▸ List.not_mem_nil)⟩
        have further : Through events plan rest (done ++ [.group celeries]) := passed.append ⟨none,trivial⟩
        unfold posted Broker.post
        rw [if_pos empty,if_pos empty]
        exact ih further
      · refine ⟨?_,?_⟩
        · unfold posted
          rw [if_neg empty]
          exact passed
        · unfold posted Broker.post
          rw [if_neg empty,if_neg empty]
          refine ⟨?_,?_,fun gone => absurd rfl gone,fun _ among => among,fun _ among => .inl among⟩
          · simp
          · exact List.length_pos_iff.mpr empty

end posted

theorem Sound.chord_lt {index : Nat} (sound : strand.Sound events broker) (chord : strand.chord? = some index) :
    index < broker.chords.length := by
  have stands := sound.stands
  unfold Stands at stands
  split at stands
  next stage =>
    rw [chord?,stage] at chord
    cases chord
  next stage =>
    rw [chord?,stage] at chord
    cases chord
    exact (List.getElem?_eq_some_iff.mp stands.1).1
  next stage =>
    rw [chord?,stage] at chord
    cases chord

theorem flight_cases {own : List Delivery} (flies : strand.flight.Perm (delivery::own)) :
    (∃ piece, strand.stage = .lone piece true ∧ delivery = ⟨strand.plan,piece,strand.rest⟩ ∧ own = []) ∨
    ∃ index celeries pending lost celery, strand.stage = .chord index celeries pending lost ∧ celery ∈ pending ∧
      delivery = ⟨strand.plan,.part celery index,strand.rest⟩ ∧
      own.Perm ((pending.erase celery).map (fun celery => ⟨strand.plan,.part celery index,strand.rest⟩)) := by
  unfold flight at flies
  split at flies
  next piece pending stage =>
    cases pending with
    | true =>
      have same : delivery::own = [⟨strand.plan,piece,strand.rest⟩] := flies.symm.eq_singleton
      cases same
      exact .inl ⟨piece,stage,rfl,rfl⟩
    | false => cases flies.nil_eq
  next index celeries pending lost stage =>
    obtain ⟨celery,among,rfl⟩ := List.mem_map.mp (flies.symm.subset List.mem_cons_self)
    refine .inr ⟨index,celeries,pending,lost,celery,stage,among,rfl,?_⟩
    have parts := (List.perm_cons_erase among).map (fun celery => Delivery.mk strand.plan (.part celery index) strand.rest)
    exact (flies.symm.trans parts).cons_inv
  next => cases flies.nil_eq

end Strand

end strands

section accounts
variable {plan : Plan} {events more : List (Origin × Work)} {broker other : Broker} {strand after : Strand} {delivery : Delivery}
  {flying others : List Delivery} {strands rest : List Strand}

/-- What is on its way belongs to the strands, each piece to one of them. -/
structure Accounts (events : List (Origin × Work)) (broker : Broker) (flying : List Delivery) (strands : List Strand) : Prop where
  flight : flying.Perm (strands.flatMap Strand.flight)
  sound : ∀ strand ∈ strands, strand.Sound events broker
  chords : (strands.filterMap Strand.chord?).Nodup

/-- Every strand goes on, and every one later on stems from one before. -/
structure Continues (strands later : List Strand) : Prop where
  goes : ∀ strand ∈ strands, ∃ after ∈ later, strand.Becomes after
  stems : ∀ after ∈ later, ∃ strand ∈ strands, strand.Becomes after

theorem Continues.refl (strands : List Strand) : Continues strands strands :=
  ⟨fun strand among => ⟨strand,among,.refl strand⟩,fun strand among => ⟨strand,among,.refl strand⟩⟩

theorem Accounts.perm (accounts : Accounts events broker flying strands) (same : others.Perm flying) :
    Accounts events broker others strands :=
  ⟨same.trans accounts.flight,accounts.sound,accounts.chords⟩

theorem Accounts.mono (accounts : Accounts events broker flying strands) (grows : events ⊆ more)
    (revoked : broker.revoked ⊆ other.revoked) (chords : other.chords = broker.chords) : Accounts more other flying strands :=
  ⟨accounts.flight,fun strand among => (accounts.sound strand among).mono grows revoked (fun index _ => by rw [chords]),
    accounts.chords⟩

theorem Accounts.delivers (accounts : Accounts events broker flying strands) (flies : delivery ∈ flying) :
    ∃ strand ∈ strands, strand.Delivers events delivery := by
  obtain ⟨strand,among,own⟩ := List.mem_flatMap.mp (accounts.flight.subset flies)
  exact ⟨strand,among,(accounts.sound strand among).delivers own⟩

/-- One strand goes on while the others stand. -/
theorem Accounts.replace (accounts : Accounts events broker flying strands) (same : strands.Perm (strand::rest))
    (sound : after.Sound events other) (becomes : strand.Becomes after) (revoked : broker.revoked ⊆ other.revoked)
    (kept : ∀ index, strand.chord? ≠ some index → index < broker.chords.length → other.chords[index]? = broker.chords[index]?)
    (chord : after.chord? = strand.chord? ∨ after.chord? = none ∨
      after.chord? = some broker.chords.length)
    (flight : others.Perm (after.flight ++ rest.flatMap Strand.flight)) :
    Accounts events other others (after::rest) ∧ Continues strands (after::rest) := by
  have chords : ((strand::rest).filterMap Strand.chord?).Nodup :=
    (same.filterMap _).nodup_iff.mp accounts.chords
  have among {one : Strand} (inside : one ∈ rest) : one.Sound events broker :=
    accounts.sound one (same.symm.subset (List.mem_cons_of_mem _ inside))
  have apart {one : Strand} {index : Nat} (inside : one ∈ rest) (counts : one.chord? = some index) :
      strand.chord? ≠ some index := by
    intro mine
    rw [List.filterMap_cons_some mine,List.nodup_cons] at chords
    exact chords.1 (List.mem_filterMap.mpr ⟨one,inside,counts⟩)
  refine ⟨⟨flight,?_,?_⟩,?_,?_⟩
  · intro one inside
    rcases List.mem_cons.mp inside with rfl | elsewhere
    · exact sound
    · exact (among elsewhere).mono (List.Subset.refl _) revoked
        (fun index counts => kept index (apart elsewhere counts) ((among elsewhere).chord_lt counts))
  · have old : (rest.filterMap Strand.chord?).Nodup :=
      chords.sublist ((List.sublist_cons_self _ _).filterMap _)
    rcases chord with mine | none | new
    · rwa [List.filterMap_cons,mine,← List.filterMap_cons]
    · rwa [List.filterMap_cons_none none]
    · rw [List.filterMap_cons_some new,List.nodup_cons]
      refine ⟨fun inside => ?_,old⟩
      obtain ⟨one,member,counts⟩ := List.mem_filterMap.mp inside
      exact Nat.lt_irrefl _ ((among member).chord_lt counts)
  · intro one inside
    rcases List.mem_cons.mp (same.subset inside) with rfl | elsewhere
    · exact ⟨after,List.mem_cons_self,becomes⟩
    · exact ⟨one,List.mem_cons_of_mem _ elsewhere,.refl one⟩
  · intro one inside
    rcases List.mem_cons.mp inside with rfl | elsewhere
    · exact ⟨strand,same.symm.subset List.mem_cons_self,becomes⟩
    · exact ⟨one,same.symm.subset (List.mem_cons_of_mem _ elsewhere),.refl one⟩

/-- A piece that falters is lost to its strand. -/
theorem Accounts.lose (accounts : Accounts events broker (delivery::others) strands) (fails : Fails events broker delivery) :
    ∃ later, Accounts events broker others later ∧ Continues strands later := by
  obtain ⟨strand,rest,own,same,flies,left⟩ := flatMap_cons accounts.flight
  have sound := accounts.sound strand (same.symm.subset List.mem_cons_self)
  have faltered : Faltered events broker strand.plan strand.members := by
    obtain ⟨plan,before,member,shape,own,_⟩ := sound.delivers (flies.symm.subset List.mem_cons_self)
    exact ⟨delivery.piece,delivery.rest,⟨member,shape ▸ List.mem_append_right _ List.mem_cons_self,own⟩,plan ▸ fails⟩
  have stands := sound.stands
  unfold Strand.Stands at stands
  rcases Strand.flight_cases flies with ⟨piece,stage,rfl,rfl⟩ | ⟨index,celeries,pending,lost,celery,stage,among,rfl,own⟩
  · rw [stage] at stands
    let after : Strand := {strand with stage := .lone piece false}
    have becomes : strand.Becomes after := ⟨rfl,by simp only [after,Strand.members,stage,Stage.members]⟩
    have done := sound.done
    rw [stage] at done
    have later : after.Sound events broker := ⟨done,stands.1,fun _ => becomes.members ▸ faltered⟩
    exact ⟨_,accounts.replace same later becomes (List.Subset.refl _) (fun _ _ _ => rfl) (.inr (.inl rfl)) left⟩
  · rw [stage] at stands
    obtain ⟨counts,some_,_,parts,known⟩ := stands
    let after : Strand := {strand with stage := .chord index celeries (pending.erase celery) (celery::lost)}
    have becomes : strand.Becomes after := ⟨rfl,by simp only [after,Strand.members,stage,Stage.members]⟩
    have length : (pending.erase celery).length + (celery::lost).length = pending.length + lost.length := by
      rw [List.length_erase_of_mem among,List.length_cons]
      have := List.length_pos_of_mem among
      omega
    have done := sound.done
    rw [stage] at done
    have later : after.Sound events broker := by
      refine ⟨done,length ▸ counts,length ▸ some_,fun _ => becomes.members ▸ faltered,
        fun part inside => parts part (List.mem_of_mem_erase inside),fun part inside => ?_⟩
      by_cases here : part = celery
      · exact .inr (.inl (here ▸ List.mem_cons_self))
      · rcases known part inside with waits | gone | returned
        · exact .inl ((List.mem_erase_of_ne here).mpr waits)
        · exact .inr (.inl (List.mem_cons_of_mem _ gone))
        · exact .inr (.inr returned)
    exact ⟨_,accounts.replace same later becomes (List.Subset.refl _) (fun _ _ _ => rfl)
      (.inl (by simp only [after,Strand.chord?,stage,Stage.chord?])) (left.trans (own.append_right _))⟩

/-- A member is over when its last piece returns, and the next one is posted. -/
theorem Accounts.post (accounts : Accounts events broker flying strands) (same : strands.Perm (strand::rest))
    {counted : Broker} (counts : counted.chords.length = broker.chords.length) (revoked : broker.revoked ⊆ counted.revoked)
    (kept : ∀ index, strand.chord? ≠ some index → counted.chords[index]? = broker.chords[index]?)
    (passed : Through events strand.plan strand.rest strand.stage.members)
    (left : others.Perm (rest.flatMap Strand.flight)) :
    ∃ new later, waiting (counted.post strand.plan strand.rest).queue = waiting counted.queue ++ new ∧
      Accounts events (counted.post strand.plan strand.rest) (new ++ others) later ∧ Continues strands later := by
  have sound := accounts.sound strand (same.symm.subset List.mem_cons_self)
  let done := strand.done ++ strand.stage.members
  let after := Strand.posted strand.plan counted.chords.length done strand.rest
  have becomes : strand.Becomes after := ⟨Strand.posted_becomes.1,Strand.posted_becomes.2⟩
  have later : after.Sound events (counted.post strand.plan strand.rest) := Strand.posted_sound (sound.done.append passed)
  obtain ⟨extra,chords⟩ : ∃ extra, (counted.post strand.plan strand.rest).chords = counted.chords ++ extra := Strand.posted_chords
  refine ⟨after.flight,_,Strand.posted_waiting,accounts.replace same later becomes ?_ ?_ ?_ (left.append_left _)⟩
  · rw [(post_kept _ _ _).2]
    exact revoked
  · intro index elsewhere bound
    rw [chords,List.getElem?_append_left (counts ▸ bound)]
    exact kept index elsewhere
  · rw [← counts]
    exact .inr Strand.posted_chord

/-- A launch adds a strand of its own. -/
theorem Accounts.launch (accounts : Accounts events broker (waiting broker.queue ++ others) strands) (plan : Plan)
    (members : List Member) : ∃ new, (new.plan,new.members) = (plan,members) ∧ Accounts events (broker.post plan members)
      (waiting (broker.post plan members).queue ++ others) (new::strands) := by
  obtain ⟨extra,counted⟩ : ∃ extra, (broker.post plan members).chords = broker.chords ++ extra := Strand.posted_chords
  let new := Strand.posted plan broker.chords.length [] members
  have queue : waiting (broker.post plan members).queue = waiting broker.queue ++ new.flight := Strand.posted_waiting
  refine ⟨new,Prod.ext Strand.posted_becomes.1 Strand.posted_becomes.2,?_,?_,?_⟩
  · rw [queue,List.flatMap_cons,List.append_assoc]
    exact (List.perm_append_comm_assoc _ _ _).trans (accounts.flight.append_left _)
  · intro strand among
    rcases List.mem_cons.mp among with rfl | inside
    · exact Strand.posted_sound trivial
    · have sound := accounts.sound strand inside
      refine sound.mono (List.Subset.refl _) ?_ (fun index counts => ?_)
      · rw [(post_kept _ _ _).2]
        exact List.Subset.refl _
      · rw [counted,List.getElem?_append_left (sound.chord_lt counts)]
  · rcases (Strand.posted_chord : new.chord? = none ∨ new.chord? = some broker.chords.length) with none | fresh
    · rw [List.filterMap_cons_none none]
      exact accounts.chords
    · rw [List.filterMap_cons_some fresh,List.nodup_cons]
      refine ⟨fun inside => ?_,accounts.chords⟩
      obtain ⟨strand,among,counts⟩ := List.mem_filterMap.mp inside
      exact Nat.lt_irrefl _ ((accounts.sound strand among).chord_lt counts)

theorem Accounts.complete (accounts : Accounts events broker (delivery::others) strands)
    (returned : (.message (.member delivery),.complete delivery) ∈ events) :
    ∃ new later, waiting (broker.complete delivery).queue = waiting broker.queue ++ new ∧
      Accounts events (broker.complete delivery) (new ++ others) later ∧ Continues strands later := by
  obtain ⟨strand,rest,mine,same,flies,left⟩ := flatMap_cons accounts.flight
  have sound := accounts.sound strand (same.symm.subset List.mem_cons_self)
  have stands := sound.stands
  unfold Strand.Stands at stands
  rcases Strand.flight_cases flies with ⟨piece,stage,rfl,rfl⟩ | ⟨index,celeries,pending,lost,celery,stage,among,rfl,own⟩
  · rw [stage] at stands
    have completes : broker.complete ⟨strand.plan,piece,strand.rest⟩ = broker.post strand.plan strand.rest := by
      cases piece with
      | start | step | finish => rfl
      | part => cases stands.1
    rw [completes]
    refine accounts.post same rfl (List.Subset.refl _) (fun _ _ => rfl) ?_ left
    rw [stage]
    cases piece with
    | start | step | finish => exact ⟨returned,trivial⟩
    | part => cases stands.1
  · rw [stage] at stands
    obtain ⟨counts,some_,falters,parts,known⟩ := stands
    have bound := (List.getElem?_eq_some_iff.mp counts).1
    cases remaining : pending.length + lost.length with
    | zero => omega
    | succ more => cases more with
      | zero =>
        rw [remaining] at counts
        have completes : broker.complete ⟨strand.plan,.part celery index,strand.rest⟩ =
            {broker with chords := broker.chords.set index 0}.post strand.plan strand.rest := by
          simp only [Broker.complete,counts]
        have single : pending = [celery] ∧ lost = [] := by
          have inside := List.length_pos_of_mem among
          obtain ⟨one,rfl⟩ := List.length_eq_one_iff.mp (show pending.length = 1 by omega)
          exact ⟨congrArg (fun part => [part]) (List.mem_singleton.mp among).symm,List.length_eq_zero_iff.mp (by omega)⟩
        obtain ⟨rfl,rfl⟩ := single
        rw [List.erase_cons_head] at own
        rw [own.eq_nil] at left
        rw [completes]
        refine accounts.post same List.length_set (List.Subset.refl _) (fun other elsewhere => ?_) ?_ left
        · refine List.getElem?_set_ne (fun here => elsewhere ?_)
          rw [Strand.chord?,stage,← here]
          rfl
        · rw [stage]
          refine ⟨⟨index,fun part inside => ?_⟩,trivial⟩
          rcases known part inside with waits | gone | returned
          · cases List.mem_singleton.mp waits
            exact returned
          · cases gone
          · exact returned
      | succ more =>
        rw [remaining] at counts
        have completes : broker.complete ⟨strand.plan,.part celery index,strand.rest⟩ =
            {broker with chords := broker.chords.set index (more+1)} := by
          simp only [Broker.complete,counts]
        let after : Strand := {strand with stage := .chord index celeries (pending.erase celery) lost}
        have becomes : strand.Becomes after := ⟨rfl,by simp only [after,Strand.members,stage,Stage.members]⟩
        have length : (pending.erase celery).length + lost.length = more+1 := by
          rw [List.length_erase_of_mem among]
          have := List.length_pos_of_mem among
          omega
        have done := sound.done
        rw [stage] at done
        have later : after.Sound events {broker with chords := broker.chords.set index (more+1)} := by
          refine ⟨done,?_,by omega,fun gone => becomes.members ▸ falters gone,
            fun part inside => parts part (List.mem_of_mem_erase inside),fun part inside => ?_⟩
          · rw [length]
            exact List.getElem?_set_self bound
          · by_cases here : part = celery
            · subst here
              exact .inr (.inr returned)
            · exact (known part inside).imp_left (List.mem_erase_of_ne here).mpr
        rw [completes]
        refine ⟨[],_,(List.append_nil _).symm,accounts.replace same later becomes (List.Subset.refl _) (fun other elsewhere _ => ?_)
          (.inl (by simp only [after,Strand.chord?,stage,Stage.chord?])) (left.trans (own.append_right _))⟩
        refine List.getElem?_set_ne (fun here => elsewhere ?_)
        rw [Strand.chord?,stage,← here]
        rfl

end accounts

section steps
variable {definitions : Definitions} {registered : String → Bool} {events more : List (Origin × Work)} {strands later : List Strand}
  {before after : Installation} {label : Action} {delivery : Delivery}

/-- All that is queued or at work belongs to the strands. -/
structure Tracks (events : List (Origin × Work)) (S : Installation) (strands : List Strand) : Prop where
  flying : ∃ hands, List.Forall₂ InHand S.threads hands ∧
    Accounts events S.shared (waiting S.shared.queue ++ hands.filterMap id) strands
  working : ∀ thread ∈ S.threads, ∀ delivery, thread.1.delivery? = some delivery →
    ∃ strand ∈ strands, strand.Delivers events delivery

theorem delivers_later (goes : ∀ strand ∈ strands, ∃ after ∈ later, strand.Becomes after) (grows : events ⊆ more)
    (delivers : ∃ strand ∈ strands, strand.Delivers events delivery) : ∃ strand ∈ later, strand.Delivers more delivery := by
  obtain ⟨strand,among,own⟩ := delivers
  obtain ⟨one,inside,becomes⟩ := goes strand among
  exact ⟨one,inside,(becomes.delivers own).mono grows⟩

/-- What is not of a chain leaves the chains as they are. -/
theorem foreign_effect {work : Work} {broker : Broker} (foreign : Foreign work) :
    waiting (work.effect broker).queue = waiting broker.queue ∧ (work.effect broker).chords = broker.chords := by
  cases work with
  | tenant | revoke => exact ⟨rfl,rfl⟩
  | post | complete => exact foreign.elim
  | errback plan =>
    rw [Work.effect,Broker.errback]
    split
    · exact ⟨by simp [Broker.push,waiting,Origin.delivery?],rfl⟩
    · exact ⟨rfl,rfl⟩
  | send message =>
    refine ⟨?_,rfl⟩
    cases message with
    | member delivery => exact absurd rfl (foreign delivery)
    | failureHooksLauncher | hooks | markAsCanceledInitTasks => simp [Work.effect,Broker.push,waiting,Origin.delivery?]

theorem tracks_advance {index : Nat} {answer : Outside} {origin : Origin} {work : Work} {next : Broker → Outside → Chained Unit}
    (tracks : Tracks events before strands) (found : before.threads[index]? = some (origin,.step work next)) :
    ∃ later, Tracks (events ++ [(origin,work)])
      ⟨work.effect before.shared,before.threads.set index (origin,next before.shared answer)⟩ later ∧
      Continues strands later := by
  obtain ⟨hands,inHand,accounts⟩ := tracks.flying
  obtain ⟨bound,thread⟩ := List.getElem?_eq_some_iff.mp found
  have other : index < hands.length := inHand.length_eq ▸ bound
  have own : InHand (origin,.step work next) hands[index] :=
    thread ▸ (List.forall₂_iff_get.mp inHand).2 index bound other
  have hand := List.getElem?_eq_getElem other
  have grows : events ⊆ events ++ [(origin,work)] := List.subset_append_left _ _
  have revoked := revoked_effect work before.shared
  have taken : hands.filterMap id |>.Perm (hands[index].toList ++ (hands.eraseIdx index).filterMap id) :=
    filterMap_eraseIdx id hand
  -- the thread belongs to the strand that it has belonged to all along
  have assemble (hand : Option Delivery) {later : List Strand} (holds : InHand (origin,next before.shared answer) hand)
      (continues : Continues strands later) (accounts : Accounts (events ++ [(origin,work)]) (work.effect before.shared)
        (waiting (work.effect before.shared).queue ++ (hand.toList ++ (hands.eraseIdx index).filterMap id)) later) :
      ∃ later, Tracks (events ++ [(origin,work)])
        ⟨work.effect before.shared,before.threads.set index (origin,next before.shared answer)⟩ later ∧
        Continues strands later := by
    refine ⟨later,⟨⟨hands.set index hand,forall₂_set inHand index _ _ holds,?_⟩,?_⟩,continues⟩
    · exact accounts.perm ((filterMap_set other id hand).append_left _)
    · intro thread among delivery piece
      rcases List.mem_or_eq_of_mem_set among with inside | rfl
      · exact delivers_later continues.goes grows (tracks.working thread inside delivery piece)
      · exact delivers_later continues.goes grows (tracks.working _ (List.mem_of_getElem? found) delivery piece)
  have still (foreign : Foreign work) (holds : InHand (origin,next before.shared answer) hands[index]) :
      ∃ later, Tracks (events ++ [(origin,work)])
        ⟨work.effect before.shared,before.threads.set index (origin,next before.shared answer)⟩ later ∧
        Continues strands later := by
    refine assemble _ holds (.refl strands) ?_
    rw [(foreign_effect foreign).1]
    exact (accounts.mono grows revoked (foreign_effect foreign).2).perm (taken.symm.append_left _)
  cases held : hands[index] with
  | none =>
    rw [held] at own still
    exact still own.1 (own.2 _ _ trivial)
  | some delivery =>
    rw [held] at own still taken
    obtain ⟨member,⟨⟨operation,rfl⟩,rest⟩ | ⟨ends,rest⟩⟩ := own
    · exact still trivial ⟨member,rest _ _⟩
    · have apart : (delivery::(waiting before.shared.queue ++ (hands.eraseIdx index).filterMap id)).Perm
          (waiting before.shared.queue ++ hands.filterMap id) :=
        List.perm_middle.symm.trans (taken.symm.append_left _)
      have now : (origin,work) ∈ events ++ [(origin,work)] := List.mem_append_right _ (List.mem_singleton.mpr rfl)
      cases member
      rcases ends with rfl | rfl
      · obtain ⟨new,later,queue,accounts,continues⟩ :=
          ((accounts.mono grows (List.Subset.refl _) rfl).perm apart).complete now
        refine assemble none (rest _ _) continues (accounts.perm ?_)
        rw [Work.effect,queue]
        exact (List.perm_append_comm.append_right _).trans (by rw [List.append_assoc]; rfl)
      · have foreign : Foreign (.errback delivery.plan) := trivial
        obtain ⟨later,accounts,continues⟩ :=
          ((accounts.mono grows revoked (foreign_effect foreign).2).perm apart).lose (.inl now)
        refine assemble none (rest _ _) continues ?_
        rw [(foreign_effect foreign).1]
        exact accounts

theorem tracks_close {index : Nat} {origin : Origin} {thread : Chained Unit} (tracks : Tracks events before strands)
    (found : before.threads[index]? = some (origin,thread)) (idle : programs.operation thread = none) :
    Tracks events ⟨before.shared,before.threads.eraseIdx index⟩ strands := by
  obtain ⟨hands,inHand,accounts⟩ := tracks.flying
  obtain ⟨bound,there⟩ := List.getElem?_eq_some_iff.mp found
  have other : index < hands.length := inHand.length_eq ▸ bound
  have own : InHand (origin,thread) hands[index] := there ▸ (List.forall₂_iff_get.mp inHand).2 index bound other
  refine ⟨⟨hands.eraseIdx index,forall₂_eraseIdx inHand index,?_⟩,
    fun thread among => tracks.working thread (List.mem_of_mem_eraseIdx among)⟩
  have taken := filterMap_eraseIdx id (List.getElem?_eq_getElem other)
  cases held : hands[index] with
  | none =>
    rw [held] at taken
    exact accounts.perm (taken.symm.append_left _)
  | some delivery =>
    -- a worker that owes something has a step left
    rw [held] at own
    cases thread with
    | pure | raise => exact own.2.elim
    | step => cases idle

/-- A worker that has taken a message. -/
theorem spawned_inHand (definitions : Definitions) (registered : String → Bool) (origin : Origin) :
    InHand (origin,origin.program definitions registered) origin.delivery? := by
  cases piece : origin.delivery? with
  | none => exact foreign_program definitions registered piece
  | some delivery =>
    cases delivery_origin piece
    exact ⟨rfl,owes_runMember definitions delivery⟩

section moves
variable {hands : List (Option Delivery)} {broker : Broker} (tracks : Tracks events before strands)
  (inHand : List.Forall₂ InHand before.threads hands)
include tracks

/-- Whatever has been at work stays with its strand. -/
theorem Tracks.kept {threads : List (Origin × Chained Unit)} (inHand : List.Forall₂ InHand threads hands)
    (goes : ∀ strand ∈ strands, ∃ after ∈ later, strand.Becomes after)
    (accounts : Accounts events broker (waiting broker.queue ++ hands.filterMap id) later)
    (working : ∀ thread ∈ threads, thread ∈ before.threads ∨ ∀ delivery, thread.1.delivery? = some delivery →
      ∃ strand ∈ later, strand.Delivers events delivery) : Tracks events ⟨broker,threads⟩ later := by
  refine ⟨⟨hands,inHand,accounts⟩,fun thread among delivery piece => ?_⟩
  rcases working thread among with inside | new
  · exact delivers_later goes (List.Subset.refl _) (tracks.working thread inside delivery piece)
  · exact new delivery piece

/-- A worker takes what waited, or something that is of no chain. -/
theorem Tracks.spawned (inHand : List.Forall₂ InHand before.threads hands) {origin : Origin} {program : programs.Thread}
    (starts : InHand (origin,program) origin.delivery?)
    (accounts : Accounts events broker (waiting broker.queue ++ (origin.delivery?.toList ++ hands.filterMap id)) strands) :
    Tracks events ⟨broker,before.threads ++ [(origin,program)]⟩ strands := by
  have more : List.Forall₂ InHand (before.threads ++ [(origin,program)]) (hands ++ [origin.delivery?]) :=
    List.rel_append inHand (.cons starts .nil)
  refine tracks.kept more (Continues.refl strands).goes (accounts.perm ?_) (fun thread among => ?_)
  · rw [List.filterMap_append]
    refine List.Perm.append_left _ (List.perm_append_comm.trans (List.Perm.of_eq ?_))
    cases origin.delivery? <;> rfl
  · rcases List.mem_append.mp among with inside | new
    · exact .inl inside
    · cases List.mem_singleton.mp new
      refine .inr (fun delivery piece => accounts.delivers ?_)
      have here : delivery ∈ origin.delivery?.toList := Option.mem_toList.mpr piece
      exact List.mem_append_right _ (List.mem_append_left _ here)

/-- A piece that is dropped was revoked. -/
theorem Tracks.dropped {threads : List (Origin × Chained Unit)} (inHand : List.Forall₂ InHand threads hands)
    (inside : threads ⊆ before.threads) (gone : Option Delivery)
    (accounts : Accounts events broker (gone.toList ++ (waiting broker.queue ++ hands.filterMap id)) strands)
    (revoked : ∀ delivery, gone = some delivery → broker.revoked? delivery.piece.celery = true) :
    ∃ later, Tracks events ⟨broker,threads⟩ later ∧ Continues strands later := by
  cases gone with
  | none => exact ⟨strands,tracks.kept inHand (Continues.refl strands).goes accounts (fun thread among => .inl (inside among)),.refl strands⟩
  | some delivery =>
    obtain ⟨later,lost,continues⟩ := accounts.lose (.inr (revoked delivery rfl))
    exact ⟨later,tracks.kept inHand continues.goes lost (fun thread among => .inl (inside among)),continues⟩

end moves

/-- The strands go on, and a chain that is posted adds one of its own. -/
def Evolves (chain : Option (Plan × List Member)) (strands later : List Strand) : Prop := match chain with
  | none => Continues strands later
  | some chain => ∃ new, (new.plan,new.members) = chain ∧ later = new::strands

theorem Evolves.goes {chain : Option (Plan × List Member)} (evolves : Evolves chain strands later) :
    ∀ strand ∈ strands, ∃ after ∈ later, strand.Becomes after := by
  cases chain with
  | none => exact Continues.goes evolves
  | some chain =>
    obtain ⟨new,_,rfl⟩ := evolves
    exact fun strand among => ⟨strand,List.mem_cons_of_mem _ among,.refl strand⟩

/-- The chain that a launch posts, with its definition. -/
def Environment.posts? (broker : Broker) : Environment → Option (Manifest × Plan × List Member)
  | .launch userCode payload space platformTaskId manifest outside =>
    (posts outside (executeWorkflow userCode payload space platformTaskId manifest) broker).map (fun chain => (manifest,chain))
  | _ => none

theorem tracks_move {environment : Environment} (tracks : Tracks events before strands)
    (step : Step machine (Origin.program definitions registered) before (.move environment) after) :
    ∃ later, Tracks events after later ∧ Evolves ((environment.posts? before.shared).map Prod.snd) strands later := by
  obtain ⟨hands,inHand,accounts⟩ := tracks.flying
  have old (thread : Origin × Chained Unit) (among : thread ∈ before.threads) : thread ∈ before.threads ∨
      ∀ delivery, thread.1.delivery? = some delivery → ∃ strand ∈ strands, strand.Delivers events delivery := .inl among
  -- a message that leaves the queue is taken from those that wait
  have leaves {index : Nat} {message : Message} (found : before.shared.queue[index]? = some message) :
      (waiting before.shared.queue).Perm ((Origin.message message).delivery?.toList ++
        waiting (before.shared.queue.eraseIdx index)) := filterMap_eraseIdx _ found
  cases step with
  | keep _ changed reacts =>
    cases environment with
    | launch userCode payload space platformTaskId manifest outside =>
      have launching : Launching manifest (executeWorkflow userCode payload space platformTaskId manifest) :=
        executeWorkflow_launching userCode payload space platformTaskId
      obtain ⟨middle,queue,revoked,chords,ends⟩ := launching_run launching outside before.shared
      cases Option.some.inj reacts
      have stays : Accounts events middle (waiting middle.queue ++ hands.filterMap id) strands := by
        rw [queue]
        exact accounts.mono (List.Subset.refl _) (revoked ▸ List.Subset.refl _) chords
      rcases ends with ⟨none,same⟩ | ⟨plan,members,chain,_,same⟩
      · rw [same,Environment.posts?,none]
        exact ⟨strands,tracks.kept inHand (Continues.refl strands).goes stays old,.refl strands⟩
      · rw [same,Environment.posts?,chain]
        obtain ⟨new,own,posted⟩ := stays.launch plan members
        exact ⟨new::strands,tracks.kept inHand (fun strand among => ⟨strand,List.mem_cons_of_mem _ among,.refl strand⟩) posted
          (fun thread among => .inl among),new,own,rfl⟩
    | discard index =>
      simp only [machine,react] at reacts
      split at reacts
      next message found =>
        split at reacts
        next revoked =>
          cases Option.some.inj reacts
          refine tracks.dropped inHand (List.Subset.refl _) (Origin.message message).delivery? ?_ (fun delivery piece => ?_)
          · rw [← List.append_assoc]
            exact (accounts.perm ((leaves found).symm.append_right _)).mono (List.Subset.refl _) (List.Subset.refl _) rfl
          · rw [Message.celery,Origin.celery,piece] at revoked
            exact revoked
        next => cases reacts
      next => cases reacts
    | elsewhere db =>
      cases Option.some.inj reacts
      exact ⟨strands,tracks.kept inHand (Continues.refl strands).goes (accounts.mono (List.Subset.refl _) (List.Subset.refl _) rfl) old,
        .refl strands⟩
    | cancel | deliver | kill =>
      simp only [machine,react] at reacts
      repeat' split at reacts
      all_goals cases reacts
  | spawn _ changed origin reacts =>
    cases environment with
    | cancel workflow =>
      cases Option.some.inj reacts
      exact ⟨strands,tracks.spawned inHand (spawned_inHand definitions registered _) accounts,.refl strands⟩
    | deliver index =>
      simp only [machine,react] at reacts
      split at reacts
      next message found =>
        split at reacts
        · cases reacts
        · cases Option.some.inj reacts
          refine ⟨strands,tracks.spawned inHand (spawned_inHand definitions registered _) ?_,.refl strands⟩
          refine (accounts.perm ?_).mono (List.Subset.refl _) (List.Subset.refl _) rfl
          refine (List.perm_append_comm_assoc _ _ _).trans ?_
          rw [← List.append_assoc]
          exact (leaves found).symm.append_right _
      next => cases reacts
    | launch | discard | kill | elsewhere =>
      simp only [machine,react] at reacts
      repeat' split at reacts
      all_goals cases reacts
  | drop _ changed index reacts =>
    cases environment with
    | kill index =>
      simp only [machine,react] at reacts
      split at reacts
      next origin found =>
        split at reacts
        next revoked =>
          cases Option.some.inj reacts
          rw [List.getElem?_map] at found
          obtain ⟨⟨_,thread⟩,there,rfl⟩ := Option.map_eq_some_iff.mp found
          obtain ⟨bound,same⟩ := List.getElem?_eq_some_iff.mp there
          have other : index < hands.length := inHand.length_eq ▸ bound
          have own : InHand before.threads[index] hands[index] := (List.forall₂_iff_get.mp inHand).2 index bound other
          refine tracks.dropped (forall₂_eraseIdx inHand index) List.eraseIdx_subset hands[index] ?_ (fun delivery held => ?_)
          · refine (accounts.perm ?_).mono (List.Subset.refl _) (List.Subset.refl _) rfl
            refine (List.perm_append_comm_assoc _ _ _).trans ?_
            exact (filterMap_eraseIdx id (List.getElem?_eq_getElem other)).symm.append_left _
          · rw [held,same] at own
            rw [own.1] at revoked
            exact revoked
        next => cases reacts
      next => cases reacts
    | launch | cancel | deliver | discard | elsewhere =>
      simp only [machine,react] at reacts
      repeat' split at reacts
      all_goals cases reacts

/-- The chain that a step posts. -/
def chain? (broker : Broker) : Action → Option (Plan × List Member)
  | .move environment => (environment.posts? broker).map Prod.snd
  | _ => none

theorem tracks_step (tracks : Tracks events before strands)
    (step : Step machine (Origin.program definitions registered) before label after) :
    ∃ later, Tracks (events ++ before.event label) after later ∧ Evolves (chain? before.shared label) strands later := by
  have moved := step
  cases step with
  | advance index answer origin thread work found busy =>
    cases thread with
    | pure => cases busy
    | raise => cases busy
    | step performed next =>
      cases busy
      rw [event_advance found rfl]
      exact tracks_advance tracks found
  | close index origin thread found idle =>
    rw [show before.event (.close index : Action) = [] from rfl,List.append_nil]
    exact ⟨strands,tracks_close tracks found idle,.refl strands⟩
  | keep environment | spawn environment | drop environment =>
    rw [show before.event (.move environment : Action) = [] from rfl,List.append_nil]
    exact tracks_move tracks moved

end steps

section runs
variable {definitions : Definitions} {registered : String → Bool} {allowed : Allowed} {templates : List WorkflowTemplate}
  {events : List (Origin × Work)} {last : Installation} {delivery : Delivery} {manifest : Manifest} {plan : Plan}
  {members : List Member}

/-- The operations of a run are split at a launch of the definition, which posted this chain. -/
def LaunchedIn (definitions : Definitions) (registered : String → Bool) (allowed : Allowed) (templates : List WorkflowTemplate)
    (events : List (Origin × Work)) (last : Installation) (manifest : Manifest) (plan : Plan) (members : List Member) : Prop :=
  ∃ front back environment before after, events = front ++ back ∧
    Execution definitions registered allowed (installed templates) front before ∧
    environment.posts? before.shared = some (manifest,plan,members) ∧ allowed before.view (.move environment) ∧
    Step machine (Origin.program definitions registered) before (.move environment) after ∧
    Execution definitions registered allowed after back last

theorem posts_drawn {environment : Environment} {broker : Broker}
    (posted : environment.posts? broker = some (manifest,plan,members)) : Drawn manifest plan members := by
  cases environment with
  | launch userCode payload space platformTaskId definition outside =>
    obtain ⟨chain,found,same⟩ := Option.map_eq_some_iff.mp posted
    cases same
    obtain ⟨_,_,_,_,⟨none,_⟩ | ⟨_,_,some_,drawn,_⟩⟩ :=
      launching_run (executeWorkflow_launching userCode payload space platformTaskId) outside broker
    · cases none.symm.trans found
    · cases some_.symm.trans found
      exact drawn
  | cancel | deliver | discard | kill | elsewhere => cases posted

theorem LaunchedIn.drawn (launched : LaunchedIn definitions registered allowed templates events last manifest plan members) :
    Drawn manifest plan members := by
  obtain ⟨_,_,_,_,_,_,_,posted,_⟩ := launched
  exact posts_drawn posted

theorem LaunchedIn.step {after : Installation} {label : Action}
    (launched : LaunchedIn definitions registered allowed templates events last manifest plan members)
    (meets : allowed last.view label) (step : Step machine (Origin.program definitions registered) last label after) :
    LaunchedIn definitions registered allowed templates (events ++ last.event label) after manifest plan members := by
  obtain ⟨front,back,environment,start,started,rfl,head,posted,allows,launch,tail⟩ := launched
  exact ⟨front,back ++ last.event label,environment,start,started,List.append_assoc _ _ _,head,posted,allows,launch,
    .next label tail meets step⟩

/-- The strands of a run are those of its launches. -/
theorem run_tracks (run : Execution definitions registered allowed (installed templates) events last) :
    ∃ strands, Tracks events last strands ∧ ∀ strand ∈ strands, ∃ manifest,
      LaunchedIn definitions registered allowed templates events last manifest strand.plan strand.members := by
  refine (run.recorded (fun events S => Execution definitions registered allowed (installed templates) events S ∧
    ∃ strands, Tracks events S strands ∧ ∀ strand ∈ strands, ∃ manifest,
      LaunchedIn definitions registered allowed templates events S manifest strand.plan strand.members) ?_ ?_).2
  · intro events before label after ⟨head,strands,tracks,launched⟩ meets step
    obtain ⟨later,tracked,evolves⟩ := tracks_step tracks step
    have old (strand : Strand) (among : strand ∈ strands) : ∃ manifest, LaunchedIn definitions registered allowed templates
        (events ++ before.event label) after manifest strand.plan strand.members :=
      (launched strand among).imp (fun _ launch => launch.step meets step)
    refine ⟨.next label head meets step,later,tracked,fun one inside => ?_⟩
    cases chain : chain? before.shared label with
    | none =>
      rw [chain] at evolves
      obtain ⟨strand,among,becomes⟩ := Continues.stems evolves one inside
      rw [becomes.plan,becomes.members]
      exact old strand among
    | some posted =>
      rw [chain] at evolves
      obtain ⟨new,own,rfl⟩ := evolves
      rcases List.mem_cons.mp inside with rfl | among
      · cases label with
        | move environment =>
          obtain ⟨⟨manifest,_⟩,found,same⟩ := Option.map_eq_some_iff.mp chain
          cases same
          cases own
          exact ⟨manifest,events,[],environment,before,after,rfl,head,found,meets,step,.start⟩
        | advance | close => cases chain
      · exact old one among
  · exact ⟨.start,[],⟨⟨[],.nil,.nil,fun _ among => absurd among List.not_mem_nil,.nil⟩,
      fun _ among => absurd among List.not_mem_nil⟩,fun _ among => absurd among List.not_mem_nil⟩

/-- A piece that is queued or at work. -/
def OnItsWay (S : Installation) (delivery : Delivery) : Prop :=
  .member delivery ∈ S.shared.queue ∨ ∃ thread ∈ S.threads, thread.1.delivery? = some delivery

/-- The chain of a launch runs in the order of its definition. Whenever a piece is queued or at work, all pieces of the
members before it in the chain that was posted have returned; in particular the end, which stores SUCCESS, comes after
all tasks. -/
theorem chain_in_sequence (run : Execution definitions registered allowed (installed templates) events last)
    (onItsWay : OnItsWay last delivery) : ∃ manifest before member,
      LaunchedIn definitions registered allowed templates events last manifest delivery.plan (before ++ member::delivery.rest) ∧
      Drawn manifest delivery.plan (before ++ member::delivery.rest) ∧ member.Has delivery.piece ∧
      Through events delivery.plan (member::delivery.rest) before := by
  obtain ⟨strands,tracks,launched⟩ := run_tracks run
  have delivers : ∃ strand ∈ strands, strand.Delivers events delivery := by
    rcases onItsWay with queued | ⟨thread,among,piece⟩
    · obtain ⟨hands,_,accounts⟩ := tracks.flying
      exact accounts.delivers (List.mem_append_left _ (List.mem_filterMap.mpr ⟨_,queued,rfl⟩))
    · exact tracks.working thread among delivery piece
  obtain ⟨strand,among,same,before,member,shape,own,passed⟩ := delivers
  obtain ⟨manifest,launch⟩ := launched strand among
  rw [same,shape] at launch
  exact ⟨manifest,before,member,launch,launch.drawn,own,passed⟩

/-- Nothing of the plan is queued or at work. -/
structure Resting (S : Installation) (plan : Plan) : Prop where
  queue : ∀ delivery, .member delivery ∈ S.shared.queue → delivery.plan ≠ plan
  threads : ∀ thread ∈ S.threads, ∀ delivery, thread.1.delivery? = some delivery → delivery.plan ≠ plan

/-- What is on its way is queued or at work. -/
theorem Resting.idle {hands : List (Option Delivery)} (resting : Resting last plan)
    (inHand : List.Forall₂ InHand last.threads hands) :
    ∀ delivery ∈ waiting last.shared.queue ++ hands.filterMap id, delivery.plan ≠ plan := by
  intro delivery flies
  rcases List.mem_append.mp flies with queued | held
  · obtain ⟨message,member,piece⟩ := List.mem_filterMap.mp queued
    cases delivery_origin piece
    exact resting.queue delivery member
  · obtain ⟨hand,among,same⟩ := List.mem_filterMap.mp held
    obtain ⟨index,there⟩ := List.mem_iff_getElem?.mp among
    obtain ⟨bound,equal⟩ := List.getElem?_eq_some_iff.mp there
    have other : index < last.threads.length := inHand.length_eq ▸ bound
    have own : InHand last.threads[index] hands[index] := (List.forall₂_iff_get.mp inHand).2 index other bound
    rw [equal] at own
    cases same
    refine resting.threads _ (List.getElem_mem other) delivery ?_
    rw [own.1]
    rfl

/-- A strand that has nothing on its way is over, or has lost something. -/
theorem Strand.Sound.ended {strand : Strand} {broker : Broker} (sound : strand.Sound events broker) (idle : strand.flight = []) :
    Faltered events broker strand.plan strand.members ∨ Through events strand.plan [] strand.members := by
  have stands := sound.stands
  unfold Strand.Stands at stands
  unfold Strand.flight at idle
  cases stage : strand.stage with
  | lone piece pending =>
    rw [stage] at stands idle
    cases pending with
    | true => cases idle
    | false => exact .inl (stands.2 rfl)
  | chord index celeries pending lost =>
    rw [stage] at stands idle
    refine .inl (stands.2.2.1 (fun none => ?_))
    have some_ := stands.2.1
    rw [List.map_eq_nil_iff.mp idle,none] at some_
    cases some_
  | ended =>
    rw [stage] at stands
    have passed := sound.done
    have all : strand.members = strand.done := by
      simp only [Strand.members,stage,Stage.members,show strand.rest = [] from stands,List.append_nil]
    rw [stage,show strand.rest = [] from stands] at passed
    exact .inr (all ▸ passed)

/-- No step of a chain is lost: when nothing of a launched plan is queued or at work any more, all members of the chain
that was posted have run, unless a piece of it has failed or was revoked. -/
theorem chain_runs_through (launched : LaunchedIn definitions registered allowed templates events last manifest plan members)
    (resting : Resting last plan) :
    Drawn manifest plan members ∧ (Faltered events last.shared plan members ∨ Through events plan [] members) := by
  refine ⟨launched.drawn,?_⟩
  obtain ⟨front,back,environment,before,after,rfl,head,posted,_,launch,tail⟩ := launched
  obtain ⟨strands,tracks,_⟩ := run_tracks head
  obtain ⟨later,started,evolves⟩ := tracks_step tracks launch
  have chain : chain? before.shared (.move environment : Action) = some (plan,members) := by rw [chain?,posted]; rfl
  rw [chain] at evolves
  obtain ⟨new,own,rfl⟩ := evolves
  -- the strand of the launch goes on to the end of the run
  obtain ⟨finally_,tracked,strand,among,same⟩ := tail.recorded
    (fun more S => ∃ strands, Tracks (front ++ more) S strands ∧ ∃ strand ∈ strands, (strand.plan,strand.members) = (plan,members))
    (by
      intro more before label after ⟨strands,tracks,strand,among,same⟩ _ step
      obtain ⟨later,tracked,evolves⟩ := tracks_step tracks step
      obtain ⟨one,inside,becomes⟩ := evolves.goes strand among
      exact ⟨later,(List.append_assoc front more _) ▸ tracked,one,inside,by rw [becomes.plan,becomes.members]; exact same⟩)
    ⟨_,started,new,List.mem_cons_self,own⟩
  cases same
  obtain ⟨hands,inHand,accounts⟩ := tracked.flying
  have sound := accounts.sound strand among
  have idle : strand.flight = [] := by
    refine List.eq_nil_iff_forall_not_mem.mpr (fun one flies => ?_)
    have away := resting.idle inHand one (accounts.flight.symm.subset (List.mem_flatMap.mpr ⟨strand,among,flies⟩))
    exact away (sound.delivers flies).plan.symm
  exact sound.ended idle

end runs

def Work.fails : Work → Bool
  | .errback _ => true
  | _ => false

/-- A group of two tasks, and a task after it. -/
def groupThenStep : Environment :=
  .launch "space.t" (.obj []) 0 none ⟨[.group ["a","b"],.single "c"],none,none,none⟩ (.returns .null)

/-- The second task of the group returns first; the end is taken last. -/
def untilEnd : List (Line Outside Environment) :=
  [.take (.move (.deliver 0)),.finish 0 (.returns .null),.take (.move (.deliver 0)),.take (.move (.deliver 0)),
    .finish 1 (.returns .null),.finish 0 (.returns .null),.take (.move (.deliver 0)),.finish 0 (.returns .null),
    .take (.move (.deliver 0))]

/-- The only start that has returned carried the group, the task and the end. -/
def startsOnce (events : List (Origin × Work)) : Bool := events.all fun event => match event.2 with
  | .complete delivery => !decide (delivery.piece = .start) || decide (delivery.rest = [.group [0,1],.step 2,.finish])
  | _ => true

/-- The end is at work. -/
def ending (run : List (Origin × Work) × Installation) : Bool :=
  startsOnce run.1 && run.2.threads.any (fun thread => thread.1.delivery?.any (fun delivery =>
    decide (delivery.piece = .finish) && decide (delivery.rest = [])))

/-- All before the end has returned when the end is at work. -/
theorem chain_in_sequence_grouped : ∃ events last delivery,
    Execution versionOne (fun _ => false) celery (installed []) events last ∧ OnItsWay last delivery ∧
    delivery.piece = .finish ∧ Through events delivery.plan [.finish] [.start,.group [0,1],.step 2] ∧ ∃ manifest,
      LaunchedIn versionOne (fun _ => false) celery [] events last manifest delivery.plan
        [.start,.group [0,1],.step 2,.finish] := by
  obtain ⟨events,last,run,found⟩ := record_any (.take (.move groupThenStep)::untilEnd) (show ((installed []).record machine
    (Origin.program versionOne (fun _ => false)) celery (.take (.move groupThenStep)::untilEnd)).any ending = true by decide)
  obtain ⟨once,working⟩ := Bool.and_eq_true_iff.mp found
  obtain ⟨thread,among,works⟩ := List.any_eq_true.mp working
  obtain ⟨⟨plan,piece,rest⟩,own,is⟩ := (Option.any_eq_true _ _).mp works
  simp only [Bool.and_eq_true,decide_eq_true_eq] at is
  obtain ⟨rfl,rfl⟩ := is
  have onItsWay : OnItsWay last ⟨plan,.finish,[]⟩ := .inr ⟨thread,among,own⟩
  obtain ⟨manifest,before,member,launched,⟨_,_,_,_,shape,_⟩,has,through⟩ := chain_in_sequence run onItsWay
  cases member with
  | start | step | group => cases has
  | finish =>
    -- the chain begins with its start, and the one that returned carried all else
    cases before with
    | nil => cases shape
    | cons first before =>
      cases List.cons.inj shape |>.1
      have carried := List.all_eq_true.mp once _ through.1
      simp only [decide_true,Bool.not_true,Bool.false_or,decide_eq_true_eq] at carried
      cases List.append_inj_left' (carried.trans (show _ = [Member.group [0,1],.step 2] ++ [.finish] from rfl)) rfl
      exact ⟨events,last,_,run,onItsWay,rfl,through,manifest,launched⟩

/-- All has run without a failure. -/
def ranThrough (run : List (Origin × Work) × Installation) : Bool := run.1.all (fun event => !event.2.fails) &&
  (run.2.threads.isEmpty && run.2.shared.queue.isEmpty && run.2.shared.revoked.isEmpty)

/-- What the launch posts, when the schema is empty. -/
def groupThenStepPlan : Plan := ⟨0,workflowPayload (.obj []),0,none⟩

/-- All members of the chain that was launched have returned in the end. -/
theorem chain_runs_through_grouped : ∃ events last manifest plan,
    LaunchedIn versionOne (fun _ => false) celery [] events last manifest plan [.start,.group [0,1],.step 2,.finish] ∧
    Through events plan [] [.start,.group [0,1],.step 2,.finish] := by
  obtain ⟨after,taken⟩ : ∃ after, (installed []).apply machine (Origin.program versionOne (fun _ => false))
      (.move groupThenStep) = some after := ⟨_,rfl⟩
  have launch := apply_step _ _ _ taken
  obtain ⟨events,last,run,found⟩ := record_any (untilEnd ++ [.finish 0 (.returns .null)]) (show (after.record machine
    (Origin.program versionOne (fun _ => false)) celery (untilEnd ++ [.finish 0 (.returns .null)])).any ranThrough = true by
      cases taken; decide)
  simp only [ranThrough,Bool.and_eq_true,List.isEmpty_iff,List.all_eq_true] at found
  obtain ⟨smooth,⟨threads,queue⟩,revoked⟩ := found
  have launched : LaunchedIn versionOne (fun _ => false) celery [] events last _ groupThenStepPlan
      [.start,.group [0,1],.step 2,.finish] :=
    ⟨[],events,groupThenStep,installed [],after,rfl,.start,rfl,rfl,launch,run⟩
  have resting : Resting last groupThenStepPlan :=
    ⟨fun _ member => absurd (queue ▸ member) List.not_mem_nil,fun _ member => absurd (threads ▸ member) List.not_mem_nil⟩
  refine ⟨events,last,_,_,launched,(chain_runs_through launched resting).2.resolve_left ?_⟩
  rintro ⟨piece,rest,_,failed | lost⟩
  · cases smooth _ failed
  · rw [Broker.revoked?,revoked] at lost
    cases celery : piece.celery <;> simp [celery] at lost

end FinmarsWorkflow.Chain
