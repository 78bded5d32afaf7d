import AppBackend.Network.Engine
import AppBackend.Proofs.Network.Building
import AppBackend.Transfer.Executor
import Mathlib.Data.List.Induction

/-!
# Agents kept between transfers

What the engine does outside itself is noted: the agents that it builds, and the messages that it
sends by them. A trip is one transfer with what was kept before and after it and with those notes.
Main statements: `carried_trip`, all that a trip can be; `keptAfter_of_none_built`, what is kept
stays until another agent is built; and `kept_agents_suit_transfers`, whatever transfers an engine
has carried out, the agent that it uses was built from settings that are the same as those of the
transfer.
-/

namespace AppBackend

variable {ε ω : Type}

/-- A transfer asked of an engine, with the local files and the backend as they are then. -/
structure Commission (ω : Type) where
  disk : Disk
  transfer : Transfer
  backend : ω

abbrev Commission.settings (c : Commission ω) : Network.Settings := .ofTransfer c.transfer

namespace Executor

/-- What a job asks of the engine, unless its file cannot be opened or its method does not suit. -/
def commission? (job : Job) (r : Request) (timeout : Int) (s : Site ω) : Option (Commission ω) :=
  let seconds := effectiveTimeout timeout
  match job with
  | .plain => some ⟨s.disk, ⟨r, seconds, none⟩, s.backend⟩
  | .upload path =>
    match s.disk.node? path, r.method.sendsBody with
    | some node, true =>
      let upload := Upload.ofNode node
      some ⟨s.disk, ⟨withLength r upload.length, seconds, some upload⟩, s.backend⟩
    | _, _ => none
  | .download path =>
    match openDestination? s.disk path with
    | some (_, disk) => if r.method = .get then some ⟨disk, ⟨r, seconds, none⟩, s.backend⟩ else none
    | none => none

/-- When nothing is received and the engine fails, its error is the outcome. -/
theorem run_of_failed {e : Engine ε ω} {x : Executor ε} {job : Job} {r : Request} {timeout : Int}
    {s : Site ω} {c : Commission ω} {error : TransferError}
    (hc : commission? job r timeout s = some c)
    (hfail : e.perform c.disk c.transfer x.engine c.backend
      = (⟨[], .error error⟩, x.engine, c.backend)) :
    (run e x job r timeout s).1 = .fatal error.failure ∧ (run e x job r timeout s).2.1 = x ∧
      (run e x job r timeout s).2.2.backend = s.backend := by
  cases job with
  | plain =>
    obtain rfl := Option.some.inj hc
    simp only [run, runPlain, perform, hfail]
    exact ⟨rfl, trivial, trivial⟩
  | upload path =>
    simp only [commission?] at hc
    split at hc
    · rename_i node hnode hsends
      obtain rfl := Option.some.inj hc
      simp only [run, runUpload, hnode, hsends, runPlain, perform, hfail]
      exact ⟨rfl, trivial, trivial⟩
    · cases hc
  | download path =>
    simp only [commission?] at hc
    split at hc
    · rename_i destination disk hopen
      split at hc
      · rename_i hget
        obtain rfl := Option.some.inj hc
        simp only [run, runDownload, hopen, hget, if_true, perform, hfail]
        exact ⟨rfl, trivial, trivial⟩
      · cases hc
    · cases hc

end Executor

namespace Network

/-! ### One transfer -/

section
variable {σ : Type} {send : Agent → Message → StateM σ (Except TransferError Delivery)}
  {make : Settings → StateM σ (Except Fault Agent)} {t : Transfer} {kept : Kept}

theorem run_conduct_of_same {s : Settings} (h : s.Same (.ofTransfer t)) (a : Agent) (w : σ) :
    (conduct send make t (some (s, a))).run w
      = ((((deliver send a t).run w).1, some (s, a)), ((deliver send a t).run w).2) := by
  rw [conduct_of_same send make h]
  rfl

theorem run_conduct_of_ok (hnone : atHand? (.ofTransfer t) kept = none) {a : Agent} {w w' : σ}
    (hmake : (make (.ofTransfer t)).run w = (.ok a, w')) :
    (conduct send make t kept).run w
      = ((((deliver send a t).run w').1, some (.ofTransfer t, a)),
        ((deliver send a t).run w').2) := by
  rw [conduct_of_none send make hnone, StateT.run_bind, hmake]
  rfl

theorem run_conduct_of_error (hnone : atHand? (.ofTransfer t) kept = none) {f : Fault} {w w' : σ}
    (hmake : (make (.ofTransfer t)).run w = (.error f, w')) :
    (conduct send make t kept).run w = ((⟨[], .error f.toError⟩, kept), w') := by
  rw [conduct_of_none send make hnone, StateT.run_bind, hmake]
  rfl

end

/-! ### Notes -/

/-- What an engine does outside itself. -/
inductive Act where
  | built (s : Settings) (result : Except Fault Agent)
  | sent (agent : Agent) (message : Message)
deriving DecidableEq

def sendings (agent : Agent) (t : Transfer) : List Act :=
  match message? t with
  | some message => if t.isReadable then [.sent agent message] else []
  | none => []

theorem not_mem_sendings (s : Settings) (r : Except Fault Agent) (agent : Agent) (t : Transfer) :
    .built s r ∉ sendings agent t := by
  unfold sendings
  split
  · split
    · simp
    · simp
  · simp

theorem mem_sendings {a agent : Agent} {message : Message} {t : Transfer}
    (h : .sent a message ∈ sendings agent t) :
    a = agent ∧ message? t = some message ∧ t.isReadable = true := by
  unfold sendings at h
  split at h
  · rename_i found hfound
    split at h
    · rename_i hreadable
      simp only [List.mem_singleton, Act.sent.injEq] at h
      obtain ⟨rfl, rfl⟩ := h
      exact ⟨rfl, hfound, hreadable⟩
    · cases h
  · cases h

section
variable (lib : Readers) (peer : Peer ω)

def buildNoted (d : Disk) (s : Settings) : StateM (ω × List Act) (Except Fault Agent) := fun w =>
  (build lib d s, w.1, w.2 ++ [.built s (build lib d s)])

def sendNoted (agent : Agent) (message : Message) :
    StateM (ω × List Act) (Except TransferError Delivery) := fun w =>
  let (answer, backend) := peer agent message w.1
  (answer, backend, w.2 ++ [.sent agent message])

/-- A transfer by an agent, and the backend after it. -/
def delivery (agent : Agent) (c : Commission ω) : Exchange × ω :=
  (deliver (sending peer) agent c.transfer).run c.backend

theorem deliver_noted (agent : Agent) (c : Commission ω) (acts : List Act) :
    (deliver (sendNoted peer) agent c.transfer).run (c.backend, acts)
      = ((delivery peer agent c).1, (delivery peer agent c).2,
        acts ++ sendings agent c.transfer) := by
  unfold delivery deliver sendings
  cases message? c.transfer with
  | none =>
    rw [List.append_nil]
    rfl
  | some message =>
    cases c.transfer.isReadable with
    | false =>
      simp only [Bool.false_eq_true, if_false, List.append_nil]
      rfl
    | true => rfl

theorem delivery_of_message {agent : Agent} {c : Commission ω} {message : Message}
    (hmessage : message? c.transfer = some message) (hreadable : c.transfer.isReadable = true) :
    (delivery peer agent c).1 = report (peer agent message c.backend).1 := by
  unfold delivery deliver
  rw [hmessage]
  simp only [hreadable, if_true]
  rfl

/-! ### Trips -/

/-- A commission, what was kept before and after it, what was done outside, and what came of it. -/
structure Trip (ω : Type) where
  commission : Commission ω
  before : Kept
  acts : List Act
  exchange : Exchange
  after : Kept
  backend : ω

def trip (kept : Kept) (c : Commission ω) : Trip ω :=
  let ((exchange, after), backend, acts) :=
    (conduct (sendNoted peer) (buildNoted lib c.disk) c.transfer kept).run (c.backend, [])
  ⟨c, kept, acts, exchange, after, backend⟩

/-- On this trip an agent was built, from the settings of its transfer and the files then there. -/
def Trip.Builds (t : Trip ω) (a : Agent) : Prop :=
  .built t.commission.settings (.ok a) ∈ t.acts ∧
    build lib t.commission.disk t.commission.settings = .ok a

/-- The agent that is kept is one for these settings. -/
def Serves (kept : Kept) (s : Settings) : Prop := ∃ s' a, kept = some (s', a) ∧ s'.Same s

theorem atHand?_eq_none_iff {s : Settings} {kept : Kept} :
    atHand? s kept = none ↔ ¬ Serves kept s := by
  cases kept with
  | none => simp [atHand?, Serves]
  | some k =>
    obtain ⟨s', a⟩ := k
    simp [atHand?, Serves, Option.filter]

/-- What a trip can be: by the agent at hand, by one that is built for it, or by none. -/
inductive Carried (kept : Kept) (c : Commission ω) : Trip ω → Prop where
  | reused {s : Settings} {a : Agent} (hkept : kept = some (s, a)) (hsame : s.Same c.settings) :
    Carried kept c
      ⟨c, kept, sendings a c.transfer, (delivery peer a c).1, kept, (delivery peer a c).2⟩
  | renewed {a : Agent} (hnone : ¬ Serves kept c.settings)
      (hbuild : build lib c.disk c.settings = .ok a) :
    Carried kept c
      ⟨c, kept, .built c.settings (.ok a) :: sendings a c.transfer, (delivery peer a c).1,
        some (c.settings, a), (delivery peer a c).2⟩
  | failed {f : Fault} (hnone : ¬ Serves kept c.settings)
      (hbuild : build lib c.disk c.settings = .error f) :
    Carried kept c
      ⟨c, kept, [.built c.settings (.error f)], ⟨[], .error f.toError⟩, kept, c.backend⟩

theorem carried_trip (kept : Kept) (c : Commission ω) :
    Carried lib peer kept c (trip lib peer kept c) := by
  by_cases hserves : Serves kept c.settings
  · obtain ⟨s, a, rfl, hsame⟩ := hserves
    unfold trip
    rw [run_conduct_of_same hsame, deliver_noted]
    exact .reused rfl hsame
  · have hnone := atHand?_eq_none_iff.2 hserves
    cases hbuild : build lib c.disk c.settings with
    | ok a =>
      have hmake : (buildNoted lib c.disk c.settings).run (c.backend, [])
          = (.ok a, c.backend, [.built c.settings (.ok a)]) := by
        rw [← hbuild]
        rfl
      unfold trip
      rw [run_conduct_of_ok hnone hmake, deliver_noted]
      exact .renewed hserves hbuild
    | error f =>
      have hmake : (buildNoted lib c.disk c.settings).run (c.backend, [])
          = (.error f, c.backend, [.built c.settings (.error f)]) := by
        rw [← hbuild]
        rfl
      unfold trip
      rw [run_conduct_of_error hnone hmake]
      exact .failed hserves hbuild

namespace Carried

variable {lib peer} {kept : Kept} {c : Commission ω} {t : Trip ω}

theorem commission_eq (h : Carried lib peer kept c t) : t.commission = c := by
  cases h with
  | reused _ _ => rfl
  | renewed _ _ => rfl
  | failed _ _ => rfl

theorem before_eq (h : Carried lib peer kept c t) : t.before = kept := by
  cases h with
  | reused _ _ => rfl
  | renewed _ _ => rfl
  | failed _ _ => rfl

/-- An agent is built from the settings of the transfer only, and only if none is at hand. -/
theorem built (h : Carried lib peer kept c t) {s : Settings} {result : Except Fault Agent}
    (hbuilt : .built s result ∈ t.acts) :
    s = c.settings ∧ result = build lib c.disk s ∧ ¬ Serves kept s := by
  cases h with
  | reused hkept hsame => exact absurd hbuilt (not_mem_sendings _ _ _ _)
  | renewed hnone hbuild =>
    rcases List.mem_cons.1 hbuilt with heq | hsending
    · obtain ⟨rfl, rfl⟩ := Act.built.inj heq
      exact ⟨rfl, hbuild.symm, hnone⟩
    · exact absurd hsending (not_mem_sendings _ _ _ _)
  | failed hnone hbuild =>
    obtain ⟨rfl, rfl⟩ := Act.built.inj (List.mem_singleton.1 hbuilt)
    exact ⟨rfl, hbuild.symm, hnone⟩

theorem sent (h : Carried lib peer kept c t) {a : Agent} {message : Message}
    (hsent : .sent a message ∈ t.acts) :
    t.exchange = report (peer a message c.backend).1 ∧
      ((∃ s, kept = some (s, a) ∧ s.Same c.settings) ∨ t.Builds lib a) := by
  cases h with
  | @reused s agent hkept hsame =>
    obtain ⟨rfl, hmessage, hreadable⟩ := mem_sendings hsent
    exact ⟨delivery_of_message peer hmessage hreadable, .inl ⟨s, hkept, hsame⟩⟩
  | renewed hnone hbuild =>
    have hsending := (List.mem_cons.1 hsent).resolve_left nofun
    obtain ⟨rfl, hmessage, hreadable⟩ := mem_sendings hsending
    exact ⟨delivery_of_message peer hmessage hreadable, .inr ⟨List.mem_cons_self .., hbuild⟩⟩
  | failed hnone hbuild => exact absurd (List.mem_singleton.1 hsent) nofun

theorem after_cases (h : Carried lib peer kept c t) :
    t.after = kept ∨ ∃ a, t.after = some (c.settings, a) ∧ t.Builds lib a := by
  cases h with
  | reused _ _ => exact .inl rfl
  | renewed hnone hbuild => exact .inr ⟨_, rfl, List.mem_cons_self .., hbuild⟩
  | failed _ _ => exact .inl rfl

/-- When no agent can be built nothing is received, and what is kept stays. -/
theorem failure (h : Carried lib peer kept c t) {f : Fault}
    (hfail : .built c.settings (.error f) ∈ t.acts) :
    t.exchange = ⟨[], .error f.toError⟩ ∧ t.after = kept ∧ t.backend = c.backend := by
  cases h with
  | reused hkept hsame => exact absurd hfail (not_mem_sendings _ _ _ _)
  | renewed hnone hbuild =>
    have hsending := (List.mem_cons.1 hfail).resolve_left nofun
    exact absurd hsending (not_mem_sendings _ _ _ _)
  | failed hnone hbuild =>
    obtain ⟨-, heq⟩ := Act.built.inj (List.mem_singleton.1 hfail)
    obtain rfl := Except.error.inj heq
    exact ⟨rfl, rfl, rfl⟩

theorem fails_iff (h : Carried lib peer kept c t) :
    (∃ f, .built c.settings (.error f) ∈ t.acts) ↔
      ¬ Serves kept c.settings ∧ Misconfigured lib c.disk c.settings := by
  rw [← build_fails_iff]
  constructor
  · rintro ⟨f, hf⟩
    obtain ⟨-, hbuild, hnone⟩ := h.built hf
    exact ⟨hnone, f, hbuild.symm⟩
  · rintro ⟨hnone, f, hf⟩
    cases h with
    | reused hkept hsame => exact absurd ⟨_, _, hkept, hsame⟩ hnone
    | renewed _ hbuild => exact absurd (hbuild.symm.trans hf) nofun
    | failed _ hbuild => exact ⟨_, List.mem_singleton_self _⟩

/-- A transfer with its settings at hand is by the agent kept with them, and nothing is built. -/
theorem reuse (h : Carried lib peer kept c t) {s : Settings} {a : Agent}
    (hkept : kept = some (s, a)) (hsame : s.Same c.settings) :
    t.acts = sendings a c.transfer ∧ t.exchange = (delivery peer a c).1 ∧ t.after = kept := by
  cases h with
  | reused hfound _ =>
    obtain ⟨rfl, rfl⟩ := Prod.mk.inj (Option.some.inj (hkept.symm.trans hfound))
    exact ⟨rfl, rfl, rfl⟩
  | renewed hnone _ => exact absurd ⟨s, a, hkept, hsame⟩ hnone
  | failed hnone _ => exact absurd ⟨s, a, hkept, hsame⟩ hnone

end Carried

/-- To note what it does changes nothing about an engine. -/
theorem perform_eq (kept : Kept) (c : Commission ω) :
    (engineWith lib peer).perform c.disk c.transfer kept c.backend
      = ((trip lib peer kept c).exchange, (trip lib peer kept c).after,
        (trip lib peer kept c).backend) := by
  have h := carried_trip lib peer kept c
  generalize trip lib peer kept c = t at h ⊢
  unfold engineWith
  cases h with
  | reused hkept hsame =>
    subst hkept
    dsimp only
    rw [run_conduct_of_same hsame]
    rfl
  | @renewed a hnone hbuild =>
    have hmake : (building lib c.disk c.settings).run c.backend = (.ok a, c.backend) := by
      rw [← hbuild]
      rfl
    dsimp only
    rw [run_conduct_of_ok (atHand?_eq_none_iff.2 hnone) hmake]
    rfl
  | @failed f hnone hbuild =>
    have hmake : (building lib c.disk c.settings).run c.backend = (.error f, c.backend) := by
      rw [← hbuild]
      rfl
    dsimp only
    rw [run_conduct_of_error (atHand?_eq_none_iff.2 hnone) hmake]

/-! ### Trips one after another -/

def trips : Kept → List (Commission ω) → List (Trip ω)
  | _, [] => []
  | kept, c :: cs => trip lib peer kept c :: trips (trip lib peer kept c).after cs

def keptAfter (kept : Kept) (cs : List (Commission ω)) : Kept :=
  cs.foldl (fun kept c => (trip lib peer kept c).after) kept

theorem trips_concat (kept : Kept) (cs : List (Commission ω)) (c : Commission ω) :
    trips lib peer kept (cs ++ [c])
      = trips lib peer kept cs ++ [trip lib peer (keptAfter lib peer kept cs) c] := by
  induction cs generalizing kept with
  | nil => rfl
  | cons p cs ih =>
    rw [List.cons_append, trips, ih, trips, List.cons_append]
    rfl

theorem keptAfter_concat (kept : Kept) (cs : List (Commission ω)) (c : Commission ω) :
    keptAfter lib peer kept (cs ++ [c]) = (trip lib peer (keptAfter lib peer kept cs) c).after := by
  rw [keptAfter, List.foldl_append]
  rfl

/-- What is kept was built on one of the trips, from just the settings that are kept with it. -/
theorem built_of_keptAfter (cs : List (Commission ω)) {s : Settings} {a : Agent}
    (h : keptAfter lib peer none cs = some (s, a)) :
    ∃ u ∈ trips lib peer none cs, u.commission.settings = s ∧ u.Builds lib a := by
  -- from the end of the run: the last trip built what is kept, or it left what was kept before it
  induction cs using List.reverseRecOn with
  | nil => cases h
  | append_singleton cs c ih =>
    have hlast := carried_trip lib peer (keptAfter lib peer none cs) c
    rw [keptAfter_concat] at h
    rw [trips_concat]
    rcases hlast.after_cases with hsame | ⟨b, hnew, hbuilds⟩
    · obtain ⟨u, hu, hbuilt⟩ := ih (hsame.symm.trans h)
      exact ⟨u, List.mem_append_left _ hu, hbuilt⟩
    · obtain ⟨rfl, rfl⟩ := Prod.mk.inj (Option.some.inj (hnew.symm.trans h))
      refine ⟨_, List.mem_append_right _ (List.mem_singleton_self _), ?_, hbuilds⟩
      rw [hlast.commission_eq]

/-- What is kept stays until another agent is built. -/
theorem keptAfter_of_none_built {kept : Kept} {cs : List (Commission ω)}
    (h : ∀ u ∈ trips lib peer kept cs, ∀ a, ¬ u.Builds lib a) :
    keptAfter lib peer kept cs = kept := by
  induction cs generalizing kept with
  | nil => rfl
  | cons c cs ih =>
    have hfirst := h _ (List.mem_cons_self ..)
    have hkept : (trip lib peer kept c).after = kept := by
      rcases (carried_trip lib peer kept c).after_cases with hsame | ⟨a, -, hbuilds⟩
      · exact hsame
      · exact absurd hbuilds (hfirst a)
    have hrest : keptAfter lib peer (trip lib peer kept c).after cs
        = (trip lib peer kept c).after := ih fun u hu => h u (List.mem_cons_of_mem _ hu)
    exact hrest.trans hkept

/-- Of a transfer after any others on one engine. The agent kept after it was built from just the
settings kept with it. The agent that it is sent by was built for it, or before from settings that
are the same, and from the files of that time its own settings give that agent; only when a path of
theirs ends as that of a folder, they may give none. Building is tried only if the settings kept are
not the same, and fails just if the transfer is misconfigured: then nothing is received, the error
is one of misuse, the executor says so, and what was kept stays for the next transfer with its
settings. -/
theorem kept_agents_suit_transfers (past : List (Commission ω)) (c : Commission ω) :
    let start := (engineWith lib peer).fresh
    let t := trip lib peer (keptAfter lib peer start past) c
    let all := trips lib peer start past ++ [t]
    (engineWith lib peer).perform c.disk c.transfer t.before c.backend
      = (t.exchange, t.after, t.backend) ∧
    (∀ s a, t.after = some (s, a) → ∃ u ∈ all, u.commission.settings = s ∧ u.Builds lib a) ∧
    (∀ a message, .sent a message ∈ t.acts →
      t.exchange = report (peer a message c.backend).1 ∧
      ∃ u ∈ all, u.Builds lib a ∧ u.commission.settings.Same c.settings ∧
        (∀ b, build lib u.commission.disk c.settings = .ok b → b = a) ∧
        (c.settings.NamesFiles → build lib u.commission.disk c.settings = .ok a)) ∧
    (∀ s result, .built s result ∈ t.acts →
      s = c.settings ∧ result = build lib c.disk s ∧ ¬ Serves t.before s) ∧
    ((∃ f, .built c.settings (.error f) ∈ t.acts) ↔
      ¬ Serves t.before c.settings ∧ Misconfigured lib c.disk c.settings) ∧
    ∀ f, .built c.settings (.error f) ∈ t.acts →
      t.exchange = ⟨[], .error (.logic f.message)⟩ ∧ t.after = t.before ∧
      (∀ (x : Executor Kept) (job : Job) (r : Request) (timeout : Int) (site : Site ω),
        Executor.commission? job r timeout site = some c → x.engine = t.before →
        (x.run (engineWith lib peer) job r timeout site).1 = .fatal .transferMisused ∧
        (x.run (engineWith lib peer) job r timeout site).2.1 = x) ∧
      ∀ s a, t.before = some (s, a) → ∀ (others : List (Commission ω)) (next : Commission ω),
        (∀ u ∈ trips lib peer t.after others, ∀ b, ¬ u.Builds lib b) → s.Same next.settings →
        let n := trip lib peer (keptAfter lib peer t.after others) next
        n.acts = sendings a next.transfer ∧ n.exchange = (delivery peer a next).1 ∧
          n.after = some (s, a) := by
  intro start t all
  have hcarried : Carried lib peer (keptAfter lib peer start past) c t := carried_trip ..
  have hbefore : t.before = keptAfter lib peer start past := hcarried.before_eq
  have htrips : all = trips lib peer start (past ++ [c]) := (trips_concat ..).symm
  have hself : t ∈ all := List.mem_append_right _ (List.mem_singleton_self t)
  have hperform : (engineWith lib peer).perform c.disk c.transfer t.before c.backend
      = (t.exchange, t.after, t.backend) := hbefore ▸ perform_eq ..
  refine ⟨hperform, ?_, ?_, ?_, ?_, ?_⟩
  · intro s a hafter
    rw [htrips]
    exact built_of_keptAfter lib peer (past ++ [c]) ((keptAfter_concat ..).trans hafter)
  · intro a message hsent
    obtain ⟨hexchange, horigin⟩ := hcarried.sent hsent
    refine ⟨hexchange, ?_⟩
    obtain ⟨u, hu, hbuilds, hsame⟩ :
        ∃ u ∈ all, u.Builds lib a ∧ u.commission.settings.Same c.settings := by
      rcases horigin with ⟨s, hkept, hsame⟩ | hbuilds
      -- kept settings are those of the trip that built the agent, but only the same as these
      · obtain ⟨u, hu, rfl, hbuilds⟩ := built_of_keptAfter lib peer past hkept
        exact ⟨u, List.mem_append_left _ hu, hbuilds, hsame⟩
      · exact ⟨t, hself, hbuilds, hcarried.commission_eq ▸ .refl _⟩
    exact ⟨u, hu, hbuilds, hsame, fun b hb => (build_agrees _ lib hsame a b hbuilds.2 hb).symm,
      fun hfiles => build_of_same _ hsame hfiles hbuilds.2⟩
  · intro s result hbuilt
    rw [hbefore]
    exact hcarried.built hbuilt
  · rw [hbefore]
    exact hcarried.fails_iff
  · -- the same failure seen by the executor, and then by later transfers
    intro f hf
    obtain ⟨hexchange, hafter, hbackend⟩ := hcarried.failure hf
    rw [← hbefore] at hafter
    refine ⟨hexchange, hafter, ?_, ?_⟩
    · intro x job r timeout site hc hx
      have hfail : (engineWith lib peer).perform c.disk c.transfer x.engine c.backend
          = (⟨[], .error f.toError⟩, x.engine, c.backend) := by
        rw [hx, hperform, hexchange, hafter, hbackend]
      obtain ⟨hout, hsame, -⟩ := Executor.run_of_failed hc hfail
      exact ⟨hout, hsame⟩
    · intro s a hkept others next hothers hsame n
      have hstays : keptAfter lib peer t.after others = some (s, a) :=
        (keptAfter_of_none_built lib peer hothers).trans (hafter.trans hkept)
      obtain ⟨hacts, hsent, hafterNext⟩ := (carried_trip lib peer _ next).reuse hstays hsame
      exact ⟨hacts, hsent, hafterNext.trans hstays⟩

end

/-- A proxy that cannot be used between two transfers with one file of certificates: it fails, and
the agent built before it serves after it. -/
theorem kept_agents_suit_transfers_of_bad_proxy :
    let file := Utf8.ofString "-----BEGIN CERTIFICATE-----\nAAEC\n-----END CERTIFICATE-----\n"
    let disk : Disk := { nodes := [(["p.pem"], .file file)] }
    let asked (proxy path : String) : Commission Unit :=
      ⟨disk, ⟨{ url := "http://h/x", proxy, options := { caInfo := some path } }, 5, none⟩, ()⟩
    let c := asked "ftp://h" "p.pem"
    let before := keptAfter .usual unreachable none [asked "" "p.pem"]
    let t := trip .usual unreachable before c
    let n := trip .usual unreachable t.after (asked "" "p.pem")
    let x : Executor Kept := ⟨before, 1, 0⟩
    .built c.settings (.error (.badProxy "ftp://h")) ∈ t.acts ∧
      t.exchange = ⟨[], .error (.logic "invalid proxy ftp://h: cannot be used")⟩ ∧
      (x.run (engineWith .usual unreachable) .plain c.transfer.request 5 ⟨disk, ()⟩).1
        = .fatal .transferMisused ∧
      n.acts = [.sent ⟨none, 5, [[0, 1, 2]], none, true⟩
        ⟨.get, ⟨some "http", some "h", "/x", none⟩, [], []⟩] := by
  intro file disk asked c before t n x
  have hbuilt : .built c.settings (.error (.badProxy "ftp://h")) ∈ t.acts := by decide +kernel
  have hbefore : t.before = before := (carried_trip ..).before_eq
  have hkept : before = some ((asked "" "p.pem").settings, ⟨none, 5, [[0, 1, 2]], none, true⟩) := by
    decide +kernel
  have hc : Executor.commission? .plain c.transfer.request 5 ⟨disk, ()⟩ = some c := rfl
  have hmessage : Fault.message (.badProxy "ftp://h")
      = "invalid proxy ftp://h: cannot be used" := by decide +kernel
  have hfail := (kept_agents_suit_transfers .usual unreachable [asked "" "p.pem"] c).2.2.2.2.2
    (.badProxy "ftp://h") hbuilt
  have hexchange : t.exchange = ⟨[], .error (.logic "invalid proxy ftp://h: cannot be used")⟩ :=
    hmessage ▸ hfail.1
  have hruns := hfail.2.2.1 x .plain c.transfer.request 5 ⟨disk, ()⟩ hc hbefore.symm
  have hnone : ∀ u : Trip Unit, u ∈ trips .usual unreachable t.after [] →
      ∀ b, ¬ u.Builds .usual b := by
    simp [trips]
  have hacts := hfail.2.2.2 _ _ (hbefore.trans hkept) [] (asked "" "p.pem") hnone (.refl _)
  exact ⟨hbuilt, hexchange, hruns.1, hacts.1.trans (by decide +kernel)⟩

/-- A path that ends as that of a folder names no file, so no agent can be built from it; but it has
the parts of the path of the file, so the agent built from that one is used for it. -/
theorem agent_of_other_spelling_used :
    let file := Utf8.ofString "-----BEGIN CERTIFICATE-----\nAAEC\n-----END CERTIFICATE-----\n"
    let disk : Disk := { nodes := [(["p.pem"], .file file)] }
    let asked (path : String) : Commission Unit :=
      ⟨disk, ⟨{ url := "http://h/x", options := { caInfo := some path } }, 5, none⟩, ()⟩
    let past := [asked "p.pem"]
    let c := asked "p.pem/"
    let t := trip .usual unreachable (keptAfter .usual unreachable none past) c
    (∃ a message, .sent a message ∈ t.acts ∧
      ∀ u ∈ trips .usual unreachable none past ++ [t], u.Builds .usual a →
        u.commission.settings ≠ c.settings) ∧
    build .usual disk c.settings = .error (.unreadable "p.pem/") ∧
    t.exchange = ⟨[], .error (.runtime "connection failed")⟩ := by
  intro file disk asked past c t
  let a : Agent := ⟨none, 5, [[0, 1, 2]], none, true⟩
  let message : Message := ⟨.get, ⟨some "http", some "h", "/x", none⟩, [], []⟩
  have hacts : t.acts = [.sent a message] := by decide +kernel
  have hsent : .sent a message ∈ t.acts := hacts ▸ List.mem_singleton_self _
  have hother : ∀ u ∈ trips .usual unreachable none past ++ [t], u.Builds .usual a →
      u.commission.settings ≠ c.settings := by
    intro u hu hbuilds
    rcases List.mem_append.1 hu with hpast | hself
    · obtain rfl : u = trip .usual unreachable none (asked "p.pem") := List.mem_singleton.1 hpast
      rw [(carried_trip ..).commission_eq]
      decide +kernel
    · obtain rfl : u = t := List.mem_singleton.1 hself
      have hbuilt := hbuilds.1
      rw [hacts] at hbuilt
      exact absurd (List.mem_singleton.1 hbuilt) nofun
  exact ⟨⟨a, message, hsent, hother⟩, by decide +kernel, ((carried_trip ..).sent hsent).1⟩

end Network
end AppBackend
