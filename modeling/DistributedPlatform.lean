import DistributedPlatform.Correctness.Allocation
import DistributedPlatform.Correctness.Cat
import DistributedPlatform.Correctness.Chunks
import DistributedPlatform.Correctness.Container
import DistributedPlatform.Correctness.Destroy
import DistributedPlatform.Correctness.DeviceCounts
import DistributedPlatform.Correctness.DshellJobs
import DistributedPlatform.Correctness.Factor
import DistributedPlatform.Correctness.HostFiles
import DistributedPlatform.Correctness.Population
import DistributedPlatform.Correctness.Resolution
import DistributedPlatform.Correctness.RunOnce
import DistributedPlatform.Correctness.ShellFiles
import DistributedPlatform.Correctness.SocketOwnership
import DistributedPlatform.Correctness.TableContents
import DistributedPlatform.Correctness.Transfers
import DistributedPlatform.Correctness.TtyFailures
import DistributedPlatform.Correctness.TtyStream
