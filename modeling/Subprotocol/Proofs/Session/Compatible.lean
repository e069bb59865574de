/-
Two participants agree on what one of them lacks.

A participant can find out whether it speaks all that another one speaks in two ways.  It can
review what the other advertises, or the two can be compared version by version.  The two
agree.  The advertisement is read back as what the other speaks, so what the review finds
lacking is the difference of the two profiles.

The difference stands under known names only, and its text is canonical because well formed
capabilities are written canonically.  So the text of a refusal is itself a configuration,
and the participant that is set up with it speaks just what was lacking.
-/
import Subprotocol.Proofs.Profile.Configured
import Subprotocol.Proofs.Profile.Coverage
import Subprotocol.Proofs.Session.Participant

namespace Subprotocol

/-! ### Canonical texts as configurations -/

namespace Config

variable {c : Capabilities}

/-- Capabilities under known names can be configured. -/
theorem exists_profile_encode (hc : c.WellFormed)
    (hknown : ∀ name v, c.Lists name v → ∃ k : Known, k.name = name) :
    ∃ p, (Config.mk c.encode).profile = .ok p := by
  have hnames : ∀ name ∈ c.names, ∃ k : Known, k.name = name := by
    intro name hname
    obtain ⟨v, hlists⟩ := hc.mem_names_iff.mp hname
    exact hknown name v hlists
  have hprofile := Profile.ofCapabilities_eq_ok_iff.mpr ⟨hnames, rfl⟩
  exact ⟨_, profile_eq_ok_iff.mpr ⟨c, hc.parse_encode, rfl, hprofile⟩⟩

theorem supports_of_profile_encode (hc : c.WellFormed) {p : Profile}
    (h : (Config.mk c.encode).profile = .ok p) {k : Known} {v : Nat} :
    p.supports k v = true ↔ c.Lists k.name v := by
  have hp : p.WellFormed := (Profile.Reachable.configured h).wellFormed
  obtain ⟨d, hparse, -, hprofile⟩ := profile_eq_ok_iff.mp h
  rw [hc.parse_encode, Except.ok.injEq] at hparse
  subst hparse
  rw [hp.supports_iff_lists, Profile.capabilities_of_ofCapabilities hc hprofile]

end Config

/-! ### The difference of two profiles -/

namespace Profile

variable {p q : Profile}

theorem exists_profile_lacking (hp : p.WellFormed) (hq : q.WellFormed) :
    ∃ r, (Config.mk (q.lacking p.capabilities).encode).profile = .ok r := by
  refine Config.exists_profile_encode (hp.capabilities.lacking q) ?_
  intro name v hlacking
  obtain ⟨hlists, -⟩ := (lists_lacking hq).mp hlacking
  obtain ⟨k, hname, -⟩ := lists_capabilities.mp hlists
  exact ⟨k, hname⟩

theorem supports_lacking (hp : p.WellFormed) (hq : q.WellFormed) {r : Profile}
    (hr : (Config.mk (q.lacking p.capabilities).encode).profile = .ok r) {k : Known} {v : Nat} :
    r.supports k v = true ↔ p.supports k v = true ∧ ¬ q.supports k v = true := by
  rw [Config.supports_of_profile_encode (hp.capabilities.lacking q) hr, lists_lacking hq,
    hp.supports_iff_lists, hq.supports_iff_lists]

end Profile

/-! ### Two participants -/

namespace Participant

/-- **Two participants agree on their compatibility.**  One finds nothing lacking in what the
other advertises exactly when it speaks all of it.  Otherwise it names what is lacking by a
text that is a configuration, of participants that speak just that. -/
theorem compatible_exact {s t : String} {a b : Participant} (ha : a.Configured s)
    (hb : b.Configured t) :
    (b.profile.review a.advertise.1 = ⟨true, ""⟩ ↔ b.profile.Covers a.profile) ∧
    (¬ b.profile.Covers a.profile →
      ∃ m, b.profile.review a.advertise.1 = ⟨false, m⟩ ∧ (∃ d, Configured m d) ∧
        ∀ d, Configured m d → ∀ k v, d.profile.supports k v = true ↔
          a.profile.supports k v = true ∧ ¬ b.profile.supports k v = true) := by
  obtain ⟨p, hs, hap⟩ := ha.exists_answersFrom
  obtain ⟨q, ht, hbq⟩ := hb.exists_answersFrom
  have hp : p.WellFormed := (Profile.Reachable.configured hs).wellFormed
  have hq : q.WellFormed := (Profile.Reachable.configured ht).wellFormed
  rw [hap.profile, hbq.profile, hap.advertise.1, q.review_of_parse hp.parse_advertisement,
    ← Profile.lacking_isEmpty_iff_covers hp hq]
  refine ⟨by simp, fun hlacking => ⟨_, if_neg hlacking, ?_, ?_⟩⟩
  · obtain ⟨r, hr⟩ := Profile.exists_profile_lacking hp hq
    exact ⟨ofProfile r, .new hr⟩
  · intro d hd k v
    obtain ⟨r, hr, hdr⟩ := hd.exists_answersFrom
    rw [hdr.profile, Profile.supports_lacking hp hq hr]

/-- The second participant lacks a subprotocol and a link, and speaks a later link.  The first
lacks nothing of what remains of the second without that one. -/
theorem compatible_exact_overlapping :
    ∃ a b, Configured "Cons=1-2 Link=1-4" a ∧ Configured "Link=1-3,5" b ∧
      ¬ b.profile.Covers a.profile ∧
      b.profile.review a.advertise.1 = ⟨false, "Cons=1-2 Link=4"⟩ ∧
      ∀ d, Configured "Cons=1-2 Link=4" d → ∀ k v, d.profile.supports k v = true ↔
        a.profile.supports k v = true ∧ ¬ b.profile.supports k v = true := by
  obtain ⟨p, hp⟩ := Reading.isOk_iff.mp
    (show (Config.mk "Cons=1-2 Link=1-4").profile.isOk = true by decide +kernel)
  obtain ⟨q, hq⟩ := Reading.isOk_iff.mp
    (show (Config.mk "Link=1-3,5").profile.isOk = true by decide +kernel)
  have hreview : q.review (ofProfile p).advertise.1 = ⟨false, "Cons=1-2 Link=4"⟩ := by
    have hmapped : (Config.mk "Link=1-3,5").profile.map (·.review "Cons=1-2 Link=1-4") =
        .ok ⟨false, "Cons=1-2 Link=4"⟩ := by
      decide +kernel
    rw [hq] at hmapped
    rw [(answersFrom_ofProfile p).advertise.1, Config.advertisement_of_profile hp]
    exact Except.ok.inj hmapped
  obtain ⟨hcovers, hlacking⟩ := compatible_exact (.new hp) (.new hq)
  have hnot : ¬ q.Covers p := by
    intro h
    have hcovered := hcovers.mpr h
    rw [show (ofProfile q).profile = q from rfl, hreview] at hcovered
    exact absurd hcovered (by decide)
  obtain ⟨m, hm, -, hspeaks⟩ := hlacking hnot
  obtain rfl : "Cons=1-2 Link=4" = m := congrArg Verdict.missing (hreview.symm.trans hm)
  exact ⟨_, _, .new hp, .new hq, hnot, hreview, hspeaks⟩

end Participant

end Subprotocol
