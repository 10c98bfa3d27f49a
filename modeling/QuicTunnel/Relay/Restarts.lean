import QuicTunnel.Relay.Serving

/-!
# The relay's own challenge, and a key that cannot be read

Two results about whole runs of the relay's processes (`Serving`).

* `Shown`: the relay's challenge stands exactly while an order is being finalized;
* `Stuck`: over a key file that cannot be read, no provisioning gets further than reading it.
-/

namespace QuicTunnel.Relay.Serving

open Provision (Crypto Target Host Pc Act KeyIs Move)

variable {κ : Type} {config : Config} {c : Crypto κ} {x : Parsers κ} {t : Target} {h h' : Host κ}
  {v v' : Server κ} {e : Event κ} {pc pc' : Pc κ}

/-! ### The challenge -/

/-- Between the challenge's being set and its being cleared. -/
def challenging : Pc κ → Bool
  | .finalizing _ _ | .finalized _ _ => true
  | _ => false

/-- A task panics. -/
def Event.panics : Event κ → Bool
  | .abort _ => true
  | _ => false

def Work.challenging : Work κ → Bool
  | .provisioning pc => Serving.challenging pc
  | _ => false

/-- The challenge is the relay's own if there should be one, and none otherwise. -/
def Shown (t : Target) (h : Host κ) (b : Bool) : Prop :=
  if b then ∃ ka, h.challenge = some (t.domain, ka) else h.challenge = none

theorem challenging_requested (k : κ) : challenging (Provision.requested c t k) = false := by
  unfold Provision.requested
  split <;> rfl

theorem challenging_next (w : Provision.Write κ) : challenging (w.next c t) = false := by
  cases w with
  | key k => exact challenging_requested k
  | _ => rfl

/-- A step of a provisioning keeps the challenge in step with where it is. -/
theorem Move.shown (hm : Move c t h pc h' pc') (hs : Shown t h (challenging pc)) :
    Shown t h' (challenging pc') := by
  cases hm with
  | failed hfallible => cases pc <;> first | exact hs | cases hfallible
  | keyLoaded =>
    rw [challenging_requested]
    exact hs
  | written =>
    rw [challenging_next]
    exact hs
  | challenged => exact ⟨_, rfl⟩
  | refused | cleared => rfl
  | _ => exact hs

/-- Only the task at work can be challenging. -/
theorem Server.InLine.any_set (hv : v.InLine) {j : ℕ} {w w' : Work κ}
    (hj : v.works[j]? = some w) (hw : w ≠ .done) :
    (v.works.set j w').any Work.challenging = w'.challenging := by
  have hlen : j < v.works.length := (List.getElem?_eq_some_iff.1 hj).1
  rw [Bool.eq_iff_iff, List.any_eq_true]
  constructor
  · rintro ⟨u, hu, hchallenging⟩
    rcases hv.mem_set hj hw hu with rfl | rfl
    · exact hchallenging
    · cases hchallenging
  · exact fun hchallenging => ⟨w', List.mem_set hlen w', hchallenging⟩

theorem Server.InLine.any_eq (hv : v.InLine) {j : ℕ} {w : Work κ} (hj : v.works[j]? = some w)
    (hw : w ≠ .done) : v.works.any Work.challenging = w.challenging := by
  obtain ⟨hlen, hget⟩ := List.getElem?_eq_some_iff.1 hj
  have hset : (v.works.set j w).any Work.challenging = w.challenging := hv.any_set hj hw
  rwa [← hget, List.set_getElem_self, hget] at hset

theorem any_of_resolverStep {a : Renewal.Action (CertifiedKey κ)}
    (hstep : v.resolverStep config a = some v') :
    v'.works.any Work.challenging = v.works.any Work.challenging := by
  obtain ⟨r, -, rfl⟩ := resolverStep_eq hstep
  have hbegun : (begun (κ := κ) v.resolver r).any Work.challenging = false := by
    rw [List.any_eq_false]
    rintro w hw
    obtain ⟨_, -, rfl⟩ := List.mem_map.1 hw
    exact nofun
  rw [List.any_append, hbegun, Bool.or_false]

/-- A step of a serving process, unless a task panics, keeps the challenge in step. -/
theorem ServerStep.shown (hstep : ServerStep config c x h v e h' v') (hv : v.InLine)
    (hpanic : e.panics = false)
    (hs : Shown config.target h (v.works.any Work.challenging)) :
    Shown config.target h' (v'.works.any Work.challenging) := by
  cases hstep with
  | resolver _ _ hstep | readKey _ hstep =>
    rw [any_of_resolverStep hstep]
    exact hs
  | readCert => exact hs
  | work hget hm =>
    rw [hv.any_set hget nofun]
    rw [hv.any_eq hget nofun] at hs
    exact Move.shown hm hs
  | workReads hget =>
    rw [hv.any_set hget nofun]
    rw [hv.any_eq hget nofun] at hs
    exact hs
  | @finished _ j w result _ hget hend hresult hstep =>
    rw [any_of_resolverStep hstep]
    by_cases hdone : w = .done
    · subst hdone
      obtain ⟨hlen, hget⟩ := List.getElem?_eq_some_iff.1 hget
      rw [← hget, List.set_getElem_self]
      exact hs
    · rw [hv.any_set hget hdone]
      rw [hv.any_eq hget hdone] at hs
      cases w with
      | provisioning pc =>
        obtain ⟨r, rfl⟩ := hend pc rfl
        exact hs
      | loading | done => exact hs
  | aborted => cases hpanic

/-- A provisioning of the process is at `pc`. -/
def State.Provisions (s : State κ) (pc : Pc κ) : Prop :=
  s.process = .provisioning pc ∨ ∃ v, s.process = .serving v ∧ .provisioning pc ∈ v.works

def Process.challenging : Process κ → Bool
  | .provisioning pc => Serving.challenging pc
  | .serving v => v.works.any Work.challenging
  | _ => false

theorem Work.challenging_iff {w : Work κ} :
    w.challenging ↔ ∃ pc, w = .provisioning pc ∧ Serving.challenging pc := by
  cases w <;> simp [Work.challenging]

theorem Process.challenging_iff {s : State κ} :
    s.process.challenging ↔ ∃ pc, s.Provisions pc ∧ Serving.challenging pc := by
  obtain ⟨h, process⟩ := s
  cases process with
  | down | determining | selfSigned => simp [Process.challenging, State.Provisions]
  | provisioning pc => simp [Process.challenging, State.Provisions]
  | serving v =>
    simp only [Process.challenging, State.Provisions, List.any_eq_true, Work.challenging_iff]
    constructor
    · rintro ⟨w, hw, pc, rfl, hpc⟩
      exact ⟨pc, .inr ⟨v, rfl, hw⟩, hpc⟩
    · rintro ⟨pc, heq | ⟨v', heq, hmem⟩, hpc⟩
      · cases heq
      · cases heq
        exact ⟨_, hmem, pc, rfl, hpc⟩

/-- The challenge is in step with the process, whose tasks are at work one at a time. -/
structure Process.Shows (t : Target) (h : Host κ) (p : Process κ) : Prop where
  inLine : ∀ v, p = .serving v → v.InLine
  shown : Shown t h p.challenging

theorem Step.shows {s s' : State κ} (hstep : Step config c x s e s')
    (hpanic : e.panics = false) (hs : s.process.Shows config.target s.host) :
    s'.process.Shows config.target s'.host := by
  obtain ⟨hinLine, hshown⟩ := hs
  cases hstep with
  | down => exact ⟨fun _ hv => (by cases hv), rfl⟩
  | start heq | selfSigned heq | provisions heq =>
    rw [heq] at hshown
    exact ⟨fun _ hv => (by cases hv), hshown⟩
  | @serves isAcme wall now heq =>
    have hnone : Shown config.target s.host false := by
      rcases heq with heq | heq <;>
      · rw [heq] at hshown
        exact hshown
    refine ⟨fun v hv => ?_, hnone⟩
    cases hv
    exact new_inLine isAcme wall now
  | provision heq hm =>
    rw [heq] at hshown
    exact ⟨fun _ hv => (by cases hv), Move.shown hm hshown⟩
  | serving heq hstep =>
    rw [heq] at hshown
    refine ⟨fun v hv => ?_, hstep.shown (hinLine _ heq) hpanic hshown⟩
    cases hv
    exact (hinLine _ heq).step hstep

theorem challenge_of_shown {b : Bool} (hs : Shown t h b) (host : String) :
    (∃ ka, h.challenge = some (host, ka)) ↔ host = t.domain ∧ b = true := by
  cases b with
  | false => simp [show h.challenge = none from hs]
  | true =>
    obtain ⟨ka, hka⟩ := show ∃ ka, h.challenge = some (t.domain, ka) from hs
    simp [hka, eq_comm]

/-- **The relay's own challenge.**  In every run in which no task panics, the relay answers a
challenge for a host itself exactly while a provisioning, at the start or for a renewal, has its
order finalized, and the host is the relay's own domain. -/
theorem challenge_exact (config : Config) (c : Crypto κ) (x : Parsers κ) (h : Host κ)
    (hchallenge : h.challenge = none) (events : List (Event κ)) (s : State κ)
    (hpanic : ∀ e ∈ events, e.panics = false)
    (hrun : Transition.runs (step config c x) ⟨h, .down⟩ events = some s) (host : String) :
    (∃ ka, s.host.challenge = some (host, ka)) ↔
      host = config.target.domain ∧ ∃ pc, s.Provisions pc ∧ challenging pc := by
  have hs : s.process.Shows config.target s.host :=
    Transition.runs_invariant_of_forall (H := fun e => e.panics = false)
      (P := fun s : State κ => s.process.Shows config.target s.host)
      (fun _ _ _ hs hpanic h => (step_cases h).shows hpanic hs) hrun hpanic
      ⟨fun _ hv => (by cases hv), hchallenge⟩
  rw [challenge_of_shown hs.shown, Process.challenging_iff]

/-- The relay's first start, up to its order. -/
def firstOrder : List (Event Bool) :=
  [.start, .determine 0 0] ++ (sampleActs.take 11).map .provision

theorem challenge_exact_firstOrder :
    ∃ s, Transition.runs (step sampleConfig sampleCrypto sampleParsers) ⟨noFiles, .down⟩
        firstOrder = some s ∧ s.host.challenge = some ("relay.example", "ka") ∧
      ∃ pc, s.Provisions pc ∧ challenging pc := by
  obtain ⟨s, hrun, hchallenge⟩ := Option.map_eq_some_iff.1
    (show (Transition.runs (step sampleConfig sampleCrypto sampleParsers) ⟨noFiles, .down⟩
      firstOrder).map (·.host.challenge) = some (some ("relay.example", "ka")) by decide +kernel)
  have hiff := challenge_exact sampleConfig sampleCrypto sampleParsers noFiles rfl firstOrder s
    (by decide) hrun "relay.example"
  exact ⟨s, hrun, hchallenge, (hiff.1 ⟨"ka", hchallenge⟩).2⟩

/-! ### A key that cannot be read -/

/-- Up to the point where the key is read, or failed. -/
def stuck : Pc κ → Bool
  | .keypair | .keyExists | .ended (.error _) => true
  | _ => false

def Work.stuck : Work κ → Bool
  | .provisioning pc => Serving.stuck pc
  | .loading _ => false
  | .done => true

/-- No provisioning of the process gets further than reading the key. -/
def Process.Stuck : Process κ → Prop
  | .provisioning pc => stuck pc
  | .serving v => ∀ w ∈ v.works, w.stuck
  | _ => True

/-- The key is there, but cannot be read. -/
def Unusable (c : Crypto κ) (t : Target) (h : Host κ) : Prop :=
  (h.files t.keyPath).isSome ∧ ∀ k, ¬KeyIs c t h k

theorem Move.stuck (hm : Move c t h pc h' pc') (hkey : Unusable c t h)
    (hpc : Serving.stuck pc) : h' = h ∧ Serving.stuck pc' := by
  cases hm with
  | failed | keyExists => exact ⟨rfl, rfl⟩
  | keyMissing hnone => simp [Unusable, hnone] at hkey
  | keyLoaded hread hpem => exact absurd ⟨_, hread, hpem⟩ (hkey.2 _)
  | _ => cases hpc

theorem ServerStep.stuck (hstep : ServerStep config c x h v e h' v')
    (hkey : Unusable c config.target h) (hv : ∀ w ∈ v.works, w.stuck) :
    h' = h ∧ ∀ w ∈ v'.works, w.stuck := by
  have began {w : Work κ} (hw : w ∈ v.works ∨ w = .provisioning .keypair) : w.stuck :=
    hw.elim (hv w) (by rintro rfl; rfl)
  have done {j : ℕ} {w : Work κ}
      (hw : w ∈ v.works.set j .done ∨ w = .provisioning .keypair) : w.stuck := by
    rcases hw with hw | rfl
    · rcases List.mem_or_eq_of_mem_set hw with hold | rfl
      · exact hv w hold
      · rfl
    · rfl
  cases hstep with
  | resolver _ _ hstep => exact ⟨rfl, fun w hw => began (mem_works_of_resolverStep hstep hw)⟩
  | readCert => exact ⟨rfl, hv⟩
  | readKey _ hstep =>
    refine ⟨rfl, fun w hw => ?_⟩
    have hold := mem_works_of_resolverStep hstep hw
    exact began hold
  | work hget hm =>
    obtain ⟨rfl, hpc'⟩ := Move.stuck hm hkey (hv _ (List.mem_of_getElem? hget))
    refine ⟨rfl, fun w hw => ?_⟩
    rcases List.mem_or_eq_of_mem_set hw with hold | rfl
    · exact hv w hold
    · exact hpc'
  | workReads hget => exact absurd (hv _ (List.mem_of_getElem? hget)) nofun
  | finished _ _ _ hstep => exact ⟨rfl, fun w hw => done (mem_works_of_resolverStep hstep hw)⟩
  | aborted hstep => exact ⟨rfl, fun w hw => done (mem_works_of_resolverStep hstep hw)⟩

/-- The files are those of `h`, and so is what has been issued. -/
structure Unchanged (h : Host κ) (s : State κ) : Prop where
  files : s.host.files = h.files
  issued : s.host.issued = h.issued
  stuck : s.process.Stuck

theorem Step.unchanged {s s' : State κ} (hstep : Step config c x s e s')
    (hkey : Unusable c config.target h) (hs : Unchanged h s) : Unchanged h s' := by
  obtain ⟨hfiles, hissued, hstuck⟩ := hs
  have hkey' : Unusable c config.target s.host :=
    ⟨by rw [hfiles]; exact hkey.1, fun k hk => hkey.2 k (hk.congr (by rw [hfiles]))⟩
  cases hstep with
  | down | start | selfSigned => exact ⟨hfiles, hissued, trivial⟩
  | provisions => exact ⟨hfiles, hissued, rfl⟩
  | serves => exact ⟨hfiles, hissued, nofun⟩
  | provision heq hm =>
    rw [heq] at hstuck
    obtain ⟨rfl, hpc'⟩ := Move.stuck hm hkey' hstuck
    exact ⟨hfiles, hissued, hpc'⟩
  | serving heq hstep =>
    rw [heq] at hstuck
    obtain ⟨rfl, hworks⟩ := hstep.stuck hkey' hstuck
    exact ⟨hfiles, hissued, hworks⟩

/-- **A key that cannot be read stays.**  From files with an unreadable key, whatever processes are
started, the relay never writes a file again and never gets a certificate. -/
theorem unusable_key_kept (config : Config) (c : Crypto κ) (x : Parsers κ) (h : Host κ)
    (hkey : Unusable c config.target h) (events : List (Event κ)) (s : State κ)
    (hrun : Transition.runs (step config c x) ⟨h, .down⟩ events = some s) :
    s.host.files = h.files ∧ s.host.issued = h.issued := by
  have hs : Unchanged h s := Transition.runs_invariant (P := Unchanged h)
    (fun _ _ _ hs h' => (step_cases h').unchanged hkey hs) hrun ⟨rfl, rfl, trivial⟩
  exact ⟨hs.files, hs.issued⟩

/-- The relay is killed while it writes its first key. -/
def killedAtFirst : List (Event Bool) :=
  [.start, .determine 0 0, .provision .go, .provision (.generate true), .provision .go,
    .provision (.put 1), .stop]

theorem unusable_key_kept_killed :
    ∃ s, Transition.runs (step sampleConfig sampleCrypto sampleParsers) ⟨noFiles, .down⟩
        killedAtFirst = some s ∧ s.host.files "server.key" = some (utf8 "K") ∧
      ∀ events s', Transition.runs (step sampleConfig sampleCrypto sampleParsers) ⟨s.host, .down⟩
        events = some s' → s'.host.files = s.host.files ∧ s'.host.issued = s.host.issued := by
  obtain ⟨s, hrun, hkey⟩ := Option.map_eq_some_iff.1
    (show (Transition.runs (step sampleConfig sampleCrypto sampleParsers) ⟨noFiles, .down⟩
      killedAtFirst).map (·.host.files "server.key") = some (some (utf8 "K")) by decide +kernel)
  have hunusable : Unusable sampleCrypto sampleConfig.target s.host := by
    refine ⟨by rw [show s.host.files sampleConfig.target.keyPath = _ from hkey]; rfl, ?_⟩
    rintro k ⟨pem, hread, hpem⟩
    rw [Host.readToString, show s.host.files sampleConfig.target.keyPath = _ from hkey,
      Option.bind_some, fromUtf8_utf8] at hread
    cases hread
    revert hpem
    cases k <;> decide
  exact ⟨s, hrun, hkey, fun events s' hrun' => unusable_key_kept sampleConfig sampleCrypto
    sampleParsers s.host hunusable events s' hrun'⟩

end QuicTunnel.Relay.Serving
