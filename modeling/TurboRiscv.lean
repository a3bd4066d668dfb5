import TurboRiscv.Common
import TurboRiscv.Hart
import TurboRiscv.Trap
import TurboRiscv.BlockCache
import TurboRiscv.Executor
import TurboRiscv.Concrete
import TurboRiscv.Runs
import TurboRiscv.TrapDelivery
import TurboRiscv.Refinement
import TurboRiscv.CachedLoop
import TurboRiscv.Faults
import TurboRiscv.Panics
import TurboRiscv.WriteZeroes
import TurboRiscv.Mmap
