import RegularPattern.Automaton.Outline
import RegularPattern.Proofs.Automaton.Dot
import RegularPattern.Main
import RegularPattern.Simulator.Snapshot
import RegularPattern.Simulator.Strict
import RegularPattern.Proofs.Automaton.Composition
import RegularPattern.Proofs.Automaton.EarlyStop
import RegularPattern.Proofs.Automaton.Extension
import RegularPattern.Proofs.Automaton.Range
import RegularPattern.Proofs.Automaton.Renaming
import RegularPattern.Proofs.Automaton.Shape
import RegularPattern.Proofs.Automaton.Size
import RegularPattern.Proofs.Command.Lines
import RegularPattern.Proofs.Simulator.History
import RegularPattern.Proofs.Simulator.Memory
import RegularPattern.Proofs.Graph.Renaming
import RegularPattern.Proofs.Simulator.Closure
import RegularPattern.Pattern.Literal
import RegularPattern.Proofs.Pattern.Literal
import RegularPattern.Proofs.Automaton.Literal
import RegularPattern.Proofs.Graph.Relocation
import RegularPattern.Pattern.Machine
import RegularPattern.Proofs.Pattern.Machine
import RegularPattern.Proofs.Pattern.Progress
