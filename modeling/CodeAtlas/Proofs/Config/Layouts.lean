import CodeAtlas.Config.Reading
import CodeAtlas.Proofs.Layout.Recall

/-! Layouts with the options of a configuration.

The check of a configuration and the check of layout options share what they ask of a canvas,
and the padding of a configuration is a fixed one. So of the options that an accepted
configuration gives, only a force can be at fault (`fault?_of_ofText`), and the check of the
configuration does not look at any. A force that is not finite lets every layout with these
options fail, for graphs of any size (`forces_of_compute?`). -/
namespace CodeAtlas
open LayoutEngine

/-- The canvas of an accepted configuration is a valid one. -/
theorem AtlasConfig.canvas_of_ofText {text : String} {config : AtlasConfig} (h : ofText text = .ok config) :
    isValidExtent config.layout.width = true ∧ isValidExtent config.layout.height = true := by
  have husable : config.fault? = none := by
    unfold ofText at h
    split at h
    · cases h
    · split at h
      · cases h
      · cases h
        assumption
  by_contra hcanvas
  rw [Decidable.not_and_iff_not_or_not, Bool.not_eq_true, Bool.not_eq_true] at hcanvas
  unfold fault? at husable
  split at husable
  · cases husable
  · split at husable
    · cases husable
    · rw [if_pos (by simpa using hcanvas)] at husable
      cases husable

namespace LayoutOptions

variable {o : LayoutOptions}

/-- Is the parameter one that no layout can be made with? -/
def isLost (force : String × Float) : Bool := !force.2.isFinite

def lostMessage (force : String × Float) : String :=
  force.1 ++ " must be finite, got " ++ Decimal.plain force.2

/-- Options with a valid canvas and the usual padding have no fault but a force that is not finite. -/
theorem fault?_of_canvas (hwidth : isValidExtent o.width = true) (hheight : isValidExtent o.height = true)
    (hpadding : o.padding = 50.0) : o.fault? = (o.forces.find? isLost).map lostMessage := by
  have hmargin : (!o.padding.isFinite || decide (o.padding < 0.0)) = false := by
    rw [hpadding]
    decide +kernel
  rw [fault?, if_neg (by simp [hwidth, hheight]), if_neg (by simp [hmargin])]
  rfl

end LayoutOptions

open LayoutOptions (isLost lostMessage)

theorem fault?_of_ofText {text : String} {config : AtlasConfig} (h : AtlasConfig.ofText text = .ok config) :
    config.layout.options.fault? = (config.layout.options.forces.find? isLost).map lostMessage := by
  obtain ⟨hwidth, hheight⟩ := AtlasConfig.canvas_of_ofText h
  exact LayoutOptions.fault?_of_canvas hwidth hheight rfl

/-- An engine can make a layout with its default options only if all forces are finite. -/
theorem forces_of_compute? {e : LayoutEngine} {drawn : Random.Generator} {d : GraphData} {algorithm : String}
    {r : LayoutResult} (h : e.compute? drawn d algorithm {} = .ok r) : ∀ f ∈ e.defaults.forces, isLost f = false := by
  obtain ⟨hoptions, strategy, placed, outcome, -, -, hfitted⟩ := compute?_fitted h
  have hfinite := finite_of_usable hfitted.usable
  rw [hoptions] at hfinite
  intro f hf
  have hlisted : f.2 ∈ e.defaults.fractions := List.mem_append_right _ (List.mem_map_of_mem hf)
  rw [isLost, finite_of_scaleForSize hfinite f.2 hlisted]
  rfl

/-- With usable options, a layout of no nodes can always be made. -/
theorem exists_empty_layout {o : LayoutOptions} (h : o.fault? = none) (drawn : Random.Generator) :
    ∃ r, (ofDefaults o).compute? drawn {} LayoutAlgorithm.circular.tag {} = .ok r := by
  have hresolved : (ofDefaults o).resolve LayoutAlgorithm.circular.tag =
      .ok (LayoutAlgorithm.circular.tag, Strategy.circular) := rfl
  have hsame : scaleForSize (({} : LayoutOptionsUpdate).apply (ofDefaults o).defaults) ({} : GraphData).nodes.length = o :=
    rfl
  have hplaced : Strategy.circular drawn {} o = .ok ({}, .placed) := rfl
  rw [← hsame] at h hplaced
  obtain ⟨r, hr, -⟩ := compute?_of_placed hresolved h hplaced fun _ hn => absurd hn List.not_mem_nil
  exact ⟨r, hr⟩

/-- The options of an accepted configuration have no fault but the first force that is not finite,
and if there is one, no layout can be made with them as defaults, whatever is drawn. Otherwise one
can. -/
theorem configured_layouts_fail_for_forces {text : String} {config : AtlasConfig}
    (h : AtlasConfig.ofText text = .ok config) :
    config.layout.options.fault? = (config.layout.options.forces.find? isLost).map lostMessage ∧
      (∀ drawn, (∀ d algorithm, ∃ cause,
          (ofDefaults config.layout.options).compute? drawn d algorithm {} = .error cause) ↔
        ∃ f ∈ config.layout.options.forces, isLost f = true) := by
  have hfault := fault?_of_ofText h
  refine ⟨hfault, fun drawn => ⟨fun hfails => ?_, fun ⟨f, hf, hlost⟩ d algorithm => ?_⟩⟩
  · by_contra hfinite
    have hnone : config.layout.options.fault? = none := by
      rw [hfault, Option.map_eq_none_iff, List.find?_eq_none]
      exact fun f hf hlost => hfinite ⟨f, hf, hlost⟩
    obtain ⟨r, hr⟩ := exists_empty_layout hnone drawn
    obtain ⟨cause, herror⟩ := hfails {} LayoutAlgorithm.circular.tag
    exact nomatch hr.symm.trans herror
  · cases hr : (ofDefaults config.layout.options).compute? drawn d algorithm {} with
    | error cause => exact ⟨cause, rfl⟩
    | ok r => exact nomatch hlost.symm.trans (forces_of_compute? hr f hf)

/-- Without a setting for a force all of them are finite. -/
theorem configured_canvas_is_usable :
    ∃ config, AtlasConfig.ofText "[layout]\nwidth = 640.0\nheight = 480.0\n" = .ok config ∧
      config.layout.options.fault? = none := by
  have hforces : (AtlasConfig.ofText "[layout]\nwidth = 640.0\nheight = 480.0\n").toOption.any
      (fun config => config.layout.options.forces.all (!isLost ·)) = true := by
    decide +kernel
  obtain ⟨config, h, hforces⟩ := exists_ok_of_any hforces
  refine ⟨config, h, ?_⟩
  rw [(configured_layouts_fail_for_forces h).1, Option.map_eq_none_iff, List.find?_eq_none]
  simpa using hforces

/-- A configuration may be accepted though its options are not usable. -/
theorem undefined_gravity_is_accepted :
    ¬∀ text config, AtlasConfig.ofText text = .ok config → config.layout.options.fault? = none := by
  intro h
  have hfault : (AtlasConfig.ofText "[layout]\ngravity = nan\n").toOption.any
      (fun config => config.layout.options.fault?.isSome) = true := by
    decide +kernel
  obtain ⟨config, haccepted, hfault⟩ := exists_ok_of_any hfault
  simp [h _ config haccepted] at hfault

end CodeAtlas
