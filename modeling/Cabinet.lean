import Cabinet.Disk.FileTree
import Cabinet.Main
import Cabinet.Proofs.Cpu.Cost
import Cabinet.Proofs.Cpu.Flow
import Cabinet.Proofs.Cpu.Footprint
import Cabinet.Proofs.Cpu.Stack
import Cabinet.Proofs.Machine.Asleep
import Cabinet.Proofs.Machine.Corruption
import Cabinet.Proofs.Machine.FrameLength
import Cabinet.Proofs.Machine.Independence
import Cabinet.Proofs.Machine.Ledger
import Cabinet.Proofs.Machine.NormalForm
import Cabinet.Proofs.Machine.Ports
import Cabinet.Proofs.Machine.Reset
import Cabinet.Proofs.Machine.Score
import Cabinet.Proofs.Machine.Splitting
import Cabinet.Proofs.Memory.Acceptance
import Cabinet.Proofs.Observation.Parts
import Cabinet.Proofs.Options.Values
import Cabinet.Proofs.Play.ClosedForm
import Cabinet.Proofs.SaveState.Atomic
import Cabinet.Proofs.SaveState.Verdict
import Cabinet.Proofs.Video.Refresh
import Cabinet.Proofs.Video.Views
import Cabinet.Program
