import Conditioning.Proofs.Run.Sequence
import Conditioning.Proofs.Script.Assembly
import Conditioning.Proofs.Script.Blocks

/-!
# A script depends on what precedes

Text that follows a script, and that starts with a block, does not change what
the script says: its runs and directives are the first ones of the longer script
(`Script.exists_of_parse_append`).  They are also simulated first, from the same
generator, so they record the same (`Script.simulate_of_prefix`).
-/

namespace Conditioning

namespace Script

/-- The beginning of a script is a script, with the first runs and directives of the whole. -/
theorem exists_of_parse_append {before after : String} {whole : Script}
    (hafter : LeadsBlock (cleanLines after.toList))
    (h : Script.parse (before ++ "\n" ++ after) = .ok whole) :
    ∃ script, Script.parse before = .ok script ∧ script.runs <+: whole.runs ∧
      script.directives <+: whole.directives := by
  obtain ⟨blocks, draft, hblocks, hdraft, rfl⟩ := parse_eq_ok h
  rw [cleanLines_newline, blocksOf_append hafter] at hblocks
  obtain ⟨first, hfirst, hblocks⟩ := bind_eq_ok.1 hblocks
  obtain ⟨rest, -, rfl⟩ := map_eq_ok.1 hblocks
  rw [List.foldlM_append] at hdraft
  obtain ⟨begun, hbegun, hrest⟩ := bind_eq_ok.1 hdraft
  have hgrows := Draft.grows_of_foldlM hrest
  refine ⟨begun.script, ?_, hgrows.runs, hgrows.directives⟩
  exact bind_eq_ok.2 ⟨first, hfirst, map_eq_ok.2 ⟨begun, hbegun, rfl⟩⟩

/-- A simulation records the runs in order, each under its own label. -/
theorem runs_of_simulate {script : Script} (hnodup : (script.runs.map Run.label).Nodup)
    {budget : Nat} {seed : UInt64} {results : List RunRecord × Generator}
    (h : simulateEach budget (Generator.ofSeed seed) script.runs = .ok results) :
    ∃ experiment, script.simulate budget seed = .ok experiment ∧
      experiment.runs = (script.runs.map Run.label).zip results.1 := by
  refine ⟨_, (simulateAll_eq ..).trans (map_eq_ok.2 ⟨results, h, rfl⟩), ?_⟩
  have hlength : (script.runs.map Run.label).length = results.1.length := by
    rw [List.length_map, length_of_simulateEach h]
  refine Experiment.runs_putAll ?_
  rw [List.map_fst_zip (Nat.le_of_eq hlength)]
  exact hnodup

/-- The first runs of a script record the same without those that follow. -/
theorem simulate_of_prefix {script whole : Script} (hruns : script.runs <+: whole.runs)
    (hnodup : (whole.runs.map Run.label).Nodup) {budget : Nat} {seed : UInt64}
    {experiment : Experiment} (h : whole.simulate budget seed = .ok experiment) :
    ∃ shorter, script.simulate budget seed = .ok shorter ∧
      shorter.runs = experiment.runs.take script.runs.length := by
  obtain ⟨more, hmore⟩ := hruns
  obtain ⟨results, hresults, -⟩ := map_eq_ok.1 ((simulateAll_eq ..).symm.trans h)
  obtain ⟨experiment', hwhole, hrecords⟩ := runs_of_simulate hnodup hresults
  cases h.symm.trans hwhole
  rw [← hmore] at hresults
  obtain ⟨first, rest, hfirst, -, rfl⟩ := simulateEach_append_eq_ok hresults
  have hnodup' : (script.runs.map Run.label).Nodup := by
    rw [← hmore, List.map_append] at hnodup
    exact (List.nodup_append.1 hnodup).1
  obtain ⟨shorter, hshorter, hrecords'⟩ := runs_of_simulate hnodup' hfirst
  have hlength : (script.runs.map Run.label).length = first.1.length := by
    rw [List.length_map, length_of_simulateEach hfirst]
  refine ⟨shorter, hshorter, ?_⟩
  have hzip : ((script.runs.map Run.label).zip first.1).length = script.runs.length := by
    rw [List.length_zip, ← hlength, Nat.min_self, List.length_map]
  rw [hrecords', hrecords, ← hmore, List.map_append, List.zip_append hlength, ← hzip,
    List.take_left']
  rfl

/-- What a script says, and what its runs record, does not depend on blocks that follow it. -/
theorem parse_append {before after : String} {whole : Script}
    (hafter : LeadsBlock (cleanLines after.toList))
    (h : Script.parse (before ++ "\n" ++ after) = .ok whole) :
    ∃ script, Script.parse before = .ok script ∧
      script.runs <+: whole.runs ∧ script.directives <+: whole.directives ∧
      ∀ budget seed experiment, whole.simulate budget seed = .ok experiment →
        ∃ shorter, script.simulate budget seed = .ok shorter ∧
          shorter.runs = experiment.runs.take script.runs.length := by
  obtain ⟨script, hparse, hruns, hdirectives⟩ := exists_of_parse_append hafter h
  refine ⟨script, hparse, hruns, hdirectives, ?_⟩
  intro budget seed experiment hsimulate
  exact simulate_of_prefix hruns (nodup_labels_of_parse h) hsimulate

/-- The script of the pairings, run again. -/
def pairingsTwice : String := pairings ++ "\n" ++ "@run \x7b'label': 'again'\x7d"

/-- The draft that the blocks of `pairingsTwice` lead to. -/
def pairingsTwiceDraft : Draft := { pairingDraft with script := { pairingDraft.script with
  runs := [pairingRun, { pairingRun with label := "again" }] } }

theorem leadsBlock_again : LeadsBlock (cleanLines "@run \x7b'label': 'again'\x7d".toList) :=
  ⟨"@run \x7b'label': 'again'\x7d".toList, [], by decide +kernel, rfl⟩

theorem parse_pairingsTwice : Script.parse pairingsTwice = .ok pairingsTwiceDraft.script := by
  have hagain : blocksOf (cleanLines "@run \x7b'label': 'again'\x7d".toList) =
      .ok [⟨.run, some "\x7b'label': 'again'\x7d", []⟩] := by
    have hlines : cleanLines "@run \x7b'label': 'again'\x7d".toList =
        ["@run \x7b'label': 'again'\x7d".toList] := by decide +kernel
    rw [hlines]
    exact blocksOf_cons rfl rfl blocksOf_nil
  have hlabel : Literal.Reads "\x7b'label': 'again'\x7d".toList
      (.dict [(.str "label", .str "again")]) [] :=
    .dict rfl (.last rfl (.quoted "label" ": 'again'\x7d".toList rfl (.inl rfl) rfl) rfl rfl
      (.quoted "again" "\x7d".toList rfl (.inl rfl) rfl) rfl rfl)
  refine parse_pairings_newline leadsBlock_again hagain ?_
  rw [List.foldlM_cons]
  exact bind_eq_ok.2
    ⟨_, Draft.addBlock_pairingRun hlabel rfl PhaseText.compile_pairing rfl (by decide), rfl⟩

/-- The first of the two runs is declared and recorded by the script without the second one. -/
theorem parse_append_pairings :
    ∃ whole script experiment shorter, Script.parse pairingsTwice = .ok whole ∧
      Script.parse pairings = .ok script ∧ script.runs <+: whole.runs ∧
      whole.runs.length = 2 ∧ script.runs.length = 1 ∧
      whole.simulate 5 1 = .ok experiment ∧ script.simulate 5 1 = .ok shorter ∧
      shorter.runs = experiment.runs.take 1 := by
  obtain ⟨script, hparse, hruns, -, hsimulate⟩ :=
    parse_append leadsBlock_again parse_pairingsTwice
  cases parse_pairings.symm.trans hparse
  have hsome : (pairingsTwiceDraft.script.simulate 5 1).toOption.isSome = true := by decide +kernel
  obtain ⟨experiment, hexperiment⟩ := Option.isSome_iff_exists.1 hsome
  have hwhole := eq_ok_of_toOption_eq_some hexperiment
  obtain ⟨shorter, hshorter, htake⟩ := hsimulate 5 1 experiment hwhole
  exact ⟨_, _, experiment, shorter, parse_pairingsTwice, parse_pairings, hruns, rfl, rfl, hwhole,
    hshorter, htake⟩

end Script

end Conditioning
